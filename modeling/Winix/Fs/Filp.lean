/-
**Open files.**

`fs/filp.c`, the close routines of the devices, and the system calls on descriptors (`open_close.c`,
`dup.c`, `pipe.c`), with what `fork` and `exit` do to the descriptors of a process. A descriptor
`fp_filp[fd]` points to a slot of `fd_table`, which counts the descriptors and points to an inode.

The page and the `kmalloc` block of a pipe are not part of the state; whether there was room for them
is an argument. `released` records every call of `release_inode` and is read by nothing.
-/

import Winix.Fs.Path

namespace Winix.Fs

open Kernel Lib Function

/-- `OPEN_MAX`. -/
abbrev openMax : Nat := 16
/-- `NR_FILPS`. -/
abbrev nrFilps : Nat := 32

/-- An index of `fp_filp`. -/
abbrev Fd := Fin openMax
/-- A pointer into `fd_table`. -/
abbrev FilpNr := Fin nrFilps

/-- `O_WRONLY`. -/
def oWronly : Word := 0x1#32
/-- `O_CREAT`. -/
def oCreat : Word := 0x100#32
/-- `O_EXCL`. -/
def oExcl : Word := 0x200#32
/-- `O_TRUNC`. -/
def oTrunc : Word := 0x1000#32
/-- `O_APPEND`. -/
def oAppend : Word := 0x2000#32

/-- `FILP_PIPE_READ`. -/
def filpPipeRead : Word := 2#32
/-- `FILP_PIPE_WRITE`. -/
def filpPipeWrite : Word := 0#32
/-- `INODE_FLAG_PIPE`. -/
def inodeFlagPipe : Word := 2#32

/-- `struct filp`. The pointer to the pipe is here whether it is set. -/
structure Filp where
  filpMode : Word
  filpFlags : Word
  filpCount : Int
  filpIno : Option InodeNr
  filpPos : Word
  filpDev : Option DevId
  pipeMode : Word
  pipe : Bool
  deriving DecidableEq, Repr

/-- `memset(f, 0, sizeof(struct filp))`. -/
def Filp.zero : Filp := ⟨0, 0, 0, none, 0, none, 0, false⟩

/-- What the file system reads of a process. -/
structure FsProc where
  inUse : Bool
  zombie : Bool
  fpFilp : Fd → Option FilpNr
  dirs : Dirs
  owner : Owner

/-- A call of `release_inode`: the inode's link count and the slots of `fd_table` in use that refer to
it. -/
structure Release where
  iNlinks : Word
  filps : List FilpNr
  deriving DecidableEq

/-- The tables of the file system. -/
structure Files where
  vol : Volume
  fdTable : FilpNr → Filp
  procs : ProcNr → FsProc
  nextInum : Int
  released : List Release

/-- A program over the tables. -/
abbrev FilesM := Prog Files

/-! ### The state -/

/-- A program over the volume. -/
def onVolume {α : Type} (x : VolM α) : FilesM α := fun w =>
  (x w.vol).map fun (a, vol) => (a, { w with vol })

/-- Assign fields of a slot of `fd_table`. -/
def updateFilp (f : FilpNr) (change : Filp → Filp) : FilesM PUnit :=
  modify fun w => { w with fdTable := update w.fdTable f (change (w.fdTable f)) }

/-- `*filp`. -/
def readFilp (f : FilpNr) : FilesM Filp := do return (← get).fdTable f

/-- Assign fields of a process. -/
def updateFsProc (who : ProcNr) (change : FsProc → FsProc) : FilesM PUnit :=
  modify fun w => { w with procs := update w.procs who (change (w.procs who)) }

/-- The files of a process. -/
def readFsProc (who : ProcNr) : FilesM FsProc := do return (← get).procs who

/-- `who->fp_filp[fd] = file`. -/
def setFd (who : ProcNr) (fd : Fd) (file : Option FilpNr) : FilesM PUnit :=
  updateFsProc who fun p => { p with fpFilp := update p.fpFilp fd file }

/-- `for (i = 0; i < OPEN_MAX; i++)`. -/
def fdSlots : List Fd := List.finRange openMax

/-- `for (i = 0; i < NR_FILPS; i++)`. -/
def filpSlots : List FilpNr := List.finRange nrFilps

/-- The slots of `fd_table` in use that refer to an inode. -/
def filpsOf (fdTable : FilpNr → Filp) (ino : InodeNr) : List FilpNr :=
  filpSlots.filter fun f => (fdTable f).filpCount ≠ 0 ∧ (fdTable f).filpIno = some ino

/-- `release_inode`, recorded. -/
def releaseIno (ino : InodeNr) : FilesM Int := do
  modify fun w => { w with
    released := w.released ++ [⟨(w.vol.inodeTable ino).iNlinks, filpsOf w.fdTable ino⟩] }
  onVolume (releaseInode ino)

/-- `eat_path` for a process. -/
def eatPathOf (who : ProcNr) (path : List Word) : FilesM Eaten := do
  let p ← readFsProc who
  let (eaten, dirs) ← onVolume (eatPath p.dirs path)
  updateFsProc who fun p => { p with dirs }
  return eaten

/-! ### `fs/filp.c` -/

/-- `get_fd`: an error, or a free descriptor and a free slot, which is cleared. -/
def getFd (who : ProcNr) : FilesM (Except Int (Fd × FilpNr)) := do
  let w ← get
  match fdSlots.find? fun fd => (w.procs who).fpFilp fd = none with
  | none => return .error emfile
  | some openSlot =>
    match filpSlots.find? fun f => (w.fdTable f).filpCount = 0 with
    | none => return .error enfile
    | some f => do
      updateFilp f fun _ => Filp.zero
      return .ok (openSlot, f)

/-- `init_filp_by_inode`. -/
def initFilpByInode (f : FilpNr) (inode : InodeNr) : FilesM PUnit := do
  let ino ← onVolume (readIno inode)
  updateFilp f fun filp =>
    { filp with filpIno := some inode, filpCount := filp.filpCount + 1, filpDev := ino.iDev }

/-- The index of a descriptor. -/
def fdIndex (fd : Int) : Option Fd :=
  if inside : 0 ≤ fd ∧ fd < openMax then some ⟨fd.toNat, by omega⟩ else none

/-- `is_fd_opened_and_valid`: the slot that the descriptor points to. -/
def fdOpened (p : FsProc) (fd : Int) : Option (Fd × FilpNr) := do
  let fd ← fdIndex fd
  let f ← p.fpFilp fd
  return (fd, f)

/-! ### Closing -/

/-- `root_fs_close`. -/
def rootFsClose (f : FilpNr) : FilesM Int := do
  updateFilp f fun filp => { filp with filpCount := filp.filpCount - 1 }
  let filp ← readFilp f
  if filp.filpCount ≠ 0 then return ok
  else do
    let inode ← Prog.ofOption filp.filpIno
    let _ ← onVolume (putInode (some inode) true)
    let ino ← onVolume (readIno inode)
    if ino.iCount = 0 ∧ ino.iNlinks = 0#32 then do
      let _ ← releaseIno inode
      return ok
    else return ok

/-- `pipe_close`. The page and the block of the pipe are given back. -/
def pipeClose (f : FilpNr) : FilesM Int := do
  updateFilp f fun filp => { filp with filpCount := filp.filpCount - 1 }
  let filp ← readFilp f
  if filp.filpCount ≠ 0 then return ok
  else do
    let inode ← Prog.ofOption filp.filpIno
    onVolume (updateInode inode fun i => { i with iCount := i.iCount - 1 })
    let ino ← onVolume (readIno inode)
    if ino.iCount = 0 ∧ filp.pipe = false then Prog.fault
    else return ok

/-- `filp_dev->fops->close(filp_dev, filp)`; `tty_close` does nothing. -/
def closeFilp (f : FilpNr) : FilesM Int := do
  let filp ← readFilp f
  match filp.filpDev with
  | none => Prog.fault
  | some .rootfs => rootFsClose f
  | some .pipe => pipeClose f
  | some .tty | some .tty2 => return ok

/-- `sys_close`. -/
def sysClose (who : ProcNr) (fd : Int) : FilesM Int := do
  let p ← readFsProc who
  match fdOpened p fd with
  | none => return ebadf
  | some (fd, f) => do
    let ret ← closeFilp f
    if ret ≠ 0 then return ret
    else do
      setFd who fd none
      return ok

/-! ### Opening -/

/-- The inode that `_sys_open` opens: the one the path leads to, a new one, or none if the path has no
last component; or an error. -/
def openInode (who : ProcNr) (flags mode : Word) (dev : DevId) (eaten : Eaten) :
    FilesM (Except Int (Option InodeNr)) := do
  let p ← readFsProc who
  match eaten.retIno with
  | some inode => do
    let ino ← onVolume (readIno inode)
    -- neither error gives the inode back
    if anyBit flags oExcl ∧ anyBit flags oCreat then return .error eexist
    else if anyBit ino.iMode sIfdir ∧ anyBit flags oWronly then return .error eisdir
    else return .ok (some inode)
  | none =>
    if eaten.string = [] then return .ok none
    else if !anyBit flags oCreat then return .error enoent
    else do
      match ← onVolume (allocInode p.owner (some dev) (some dev)) with
      | none => return .error enospc
      | some inode => do
        let lastdir ← Prog.ofOption eaten.lastDir
        let ret ← onVolume (addInodeToDirectory p.owner lastdir inode eaten.string)
        if ret ≠ 0 then do
          let _ ← releaseIno inode
          return .error ret
        else do
          onVolume (updateInode inode fun i =>
            { i with iMode := dev.deviceType ||| (mode &&& ~~~p.owner.umask) })
          return .ok (some inode)

/-- `if (flags & O_TRUNC) truncate_inode(inode)`. -/
def truncateIf (flags : Word) (inode : InodeNr) : FilesM PUnit :=
  if anyBit flags oTrunc then onVolume (truncateInode inode) else return ⟨⟩

/-- The fields of the new slot that `_sys_open` sets. -/
def Filp.opened (filp : Filp) (flags : Word) (ino : Inode) : Filp :=
  { filp with
    filpPos := if anyBit flags oAppend then ino.iSize else filp.filpPos
    filpMode := ino.iMode
    filpFlags := flags }

/-- The part of `_sys_open` after `get_fd`. -/
def openFilp (who : ProcNr) (flags : Word) (openSlot : Fd) (f : FilpNr) (inode : InodeNr) :
    FilesM Int := do
  truncateIf flags inode
  initFilpByInode f inode
  let ino ← onVolume (readIno inode)
  updateFilp f fun filp => filp.opened flags ino
  setFd who openSlot (some f)
  -- `open` of every device returns 0
  let _ ← Prog.ofOption ino.iDev
  return (openSlot.val : Int)

/-- `_sys_open` without the last `put_inode`. -/
def openEaten (who : ProcNr) (flags mode : Word) (dev : DevId) (eaten : Eaten) : FilesM Int := do
  match ← openInode who flags mode dev eaten with
  | .error ret => return ret
  | .ok inode =>
    match ← getFd who with
    | .error ret => return ret
    | .ok (openSlot, f) => do
      let inode ← Prog.ofOption (inode.orElse fun _ => eaten.lastDir)
      openFilp who flags openSlot f inode

/-- `_sys_open`. -/
def sysOpenDev (who : ProcNr) (path : List Word) (flags mode devid : Word) : FilesM Int := do
  match getDev devid with
  | none => return enxio
  | some dev => do
    let eaten ← eatPathOf who path
    if eaten.ret ≠ 0 then return eaten.ret
    else do
      let ret ← openEaten who flags mode dev eaten
      let _ ← onVolume (putInode eaten.lastDir false)
      return ret

/-- `ROOT_DEV`. -/
def rootDev : Word := 0x101#32

section

variable (who : ProcNr)

/-- `sys_open`. -/
def sysOpen (path : List Word) (flags mode : Word) : FilesM Int :=
  sysOpenDev who path flags mode rootDev

/-- `sys_creat`. -/
def sysCreat (path : List Word) (mode : Word) : FilesM Int :=
  sysOpen who path (oCreat ||| oExcl) mode

/-! ### `dup` and `pipe` -/

/-- `fp_filp[newfd] = file1; file1->filp_count += 1`. -/
def shareFilp (newfd : Fd) (file1 : FilpNr) : FilesM Int := do
  setFd who newfd (some file1)
  updateFilp file1 fun filp => { filp with filpCount := filp.filpCount + 1 }
  return (newfd.val : Int)

/-- `sys_dup`. -/
def sysDup (oldfd : Int) : FilesM Int := do
  let p ← readFsProc who
  match fdOpened p oldfd with
  | none => return ebadf
  | some (_, file1) =>
    match ← getFd who with
    | .error ret => return ret
    | .ok (openSlot, _) => shareFilp who openSlot file1

/-- The end of `sys_dup2`. If both descriptors are the same, there is no file any more. -/
def dupOnto (oldfd newfd : Fd) : FilesM Int := do
  let p ← readFsProc who
  shareFilp who newfd (← Prog.ofOption (p.fpFilp oldfd))

/-- `sys_dup2` after `get_fd`. -/
def replaceFd (oldfd newfd : Fd) : FilesM Int := do
  let p ← readFsProc who
  if p.fpFilp newfd = none then dupOnto who oldfd newfd
  else do
    let ret ← sysClose who newfd.val
    if ret ≠ 0 then return ret else dupOnto who oldfd newfd

/-- `sys_dup2`. -/
def sysDup2 (oldfd newfd : Int) : FilesM Int := do
  let p ← readFsProc who
  match fdOpened p oldfd, fdIndex newfd with
  | some (old, _), some new =>
    match ← getFd who with
    | .error ret => return ret
    | .ok _ => replaceFd who old new
  | _, _ => return ebadf

/-- One end of a new pipe. -/
def pipeEnd (mode : Word) (inode : InodeNr) (fd : Fd) (f : FilpNr) : FilesM PUnit := do
  updateFilp f fun filp => { filp with pipeMode := mode, pipe := true }
  initFilpByInode f inode
  setFd who fd (some f)

/-- `sys_pipe` from the inode on. -/
def pipeEnds (inode : InodeNr) : FilesM Int := do
  match ← getFd who with
  | .error ret => do
    onVolume (updateInode inode fun i => { i with iCount := 0 })
    return ret
  | .ok (fd1, file1) => do
    pipeEnd who filpPipeRead inode fd1 file1
    match ← getFd who with
    | .error ret => do
      setFd who fd1 none
      -- `release_filp`
      updateFilp file1 fun filp => { filp with filpCount := 0 }
      onVolume (updateInode inode fun i => { i with iCount := 0 })
      return ret
    | .ok (fd2, file2) => do
      pipeEnd who filpPipeWrite inode fd2 file2
      return ok

end

/-- `get_next_ino`. -/
def getNextIno : FilesM Int := do
  let w ← get
  modify fun w => { w with nextInum := w.nextInum + 1 }
  return w.nextInum

/-- `sys_pipe`; `page` and `block` say whether there was memory for the two. -/
def sysPipe (who : ProcNr) (page block : Bool) : FilesM Int := do
  if !page ∨ !block then return enomem
  else match ← onVolume getFreeInodeSlot with
    | none => return emfile
    | some inode => do
      onVolume (updateInode inode fun i =>
        { i with flags := i.flags ||| inodeFlagPipe, iCount := 2, iNlinks := 1 })
      let num ← getNextIno
      onVolume (initInodeNonDisk inode num (some .pipe) none)
      pipeEnds who inode

/-! ### Processes -/

/-- `get_free_proc_slot`. -/
def freeFsProc (w : Files) : Option ProcNr := userSlots.find? fun p => !(w.procs p).inUse

/-- The loop of `copy_pcb` over the descriptors. -/
def shareAll (child : ProcNr) : List Fd → FilesM PUnit
  | [] => return ⟨⟩
  | fd :: rest => do
    let p ← readFsProc child
    match p.fpFilp fd with
    | none => shareAll child rest
    | some file => do
      updateFilp file fun filp => { filp with filpCount := filp.filpCount + 1 }
      shareAll child rest

/-- `sys_fork` and `do_vfork`, as far as files go. If there is no memory for the child, it stays in
use: `release_proc_slot` only releases zombies. -/
def forkFiles (who : ProcNr) : FilesM PUnit := do
  let w ← get
  match freeFsProc w with
  | none => return ⟨⟩
  | some child => do
    updateFsProc child fun _ => { w.procs who with inUse := true }
    shareAll child fdSlots

/-- The loop of `exit_proc` over the descriptors. -/
def closeAll (who : ProcNr) : List Fd → FilesM PUnit
  | [] => return ⟨⟩
  | fd :: rest => do
    let p ← readFsProc who
    match p.fpFilp fd with
    | none => closeAll who rest
    | some file => do
      let _ ← closeFilp file
      setFd who fd none
      closeAll who rest

/-- `release_zombie`. -/
def reapFiles (who : ProcNr) : FilesM PUnit := do
  let p ← readFsProc who
  if p.zombie then updateFsProc who fun p => { p with inUse := false, zombie := false }

/-- `exit_proc`, as far as files go; `waited` says whether the parent waits for it. -/
def exitFiles (who : ProcNr) (waited : Bool) : FilesM PUnit := do
  updateFsProc who fun p => { p with zombie := true }
  closeAll who fdSlots
  let p ← readFsProc who
  let _ ← onVolume (putInode p.dirs.fpWorkdir false)
  let _ ← onVolume (putInode p.dirs.fpRootdir false)
  if waited then reapFiles who

end Winix.Fs
