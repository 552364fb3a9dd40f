/-
**System calls on paths.**

`link_unlink.c`, `chdir_mkdir.c`, `mknod.c`, `stat.c`, `statfs.c`, `umask_access.c`, `getcwd.c`, and
the system of all file calls as a step function: an event is a call of a process, a `fork`, the end of
a process or a `wait` that takes a zombie away.
-/

import Winix.Fs.Filp

namespace Winix.Fs

open Kernel Lib

/-- `get_inode_by_path` for a process. -/
def getInodeByPathOf (who : ProcNr) (path : List Word) : FilesM (Int × Option InodeNr) := do
  let eaten ← eatPathOf who path
  let _ ← onVolume (putInode eaten.lastDir false)
  return (eaten.ret, eaten.retIno)

/-! ### Links -/

/-- `if (inode) put_inode(inode, is_dirty)`. -/
def putIfAny (inode : Option InodeNr) (isDirty : Bool) : FilesM PUnit := do
  let _ ← onVolume (putInode inode isDirty)
  return ⟨⟩

/-- `add_inode_to_directory` on a pointer that may be null. The pointer is followed when a place for the
entry has been found, and not before. -/
def addLink (owner : Owner) (lastdir : InodeNr) (inode : Option InodeNr) (string : List Word) :
    FilesM Int := do
  match inode with
  | some inode => onVolume (addInodeToDirectory owner lastdir inode string)
  | none => do
    let ret ← onVolume (addInodeToDirectory owner lastdir lastdir string)
    if ret = ok then Prog.fault else return ret

/-- `sys_link` from the new path on. -/
def linkTo (who : ProcNr) (oldinode : Option InodeNr) (newpath : List Word) : FilesM Int := do
  let eaten ← eatPathOf who newpath
  let p ← readFsProc who
  if eaten.ret ≠ 0 then do
    putIfAny eaten.retIno false
    putIfAny eaten.lastDir false
    return eaten.ret
  else if eaten.retIno.isSome then do
    putIfAny eaten.retIno false
    putIfAny eaten.lastDir false
    return eexist
  else do
    let lastdir ← Prog.ofOption eaten.lastDir
    let ret ← addLink p.owner lastdir oldinode eaten.string
    putIfAny (some lastdir) (ret = ok)
    return ret

/-- `sys_link`. -/
def sysLink (who : ProcNr) (oldpath newpath : List Word) : FilesM Int := do
  let (ret, oldinode) ← getInodeByPathOf who oldpath
  if ret ≠ 0 then do
    putIfAny oldinode false
    return ret
  else do
    let ret ← linkTo who oldinode newpath
    putIfAny oldinode false
    return ret

/-- `sys_unlink` without the last `put_inode`. -/
def unlinkEaten (who : ProcNr) (eaten : Eaten) : FilesM Int := do
  if eaten.ret ≠ 0 then return eaten.ret
  else match eaten.retIno with
    | none => return enoent
    | some inode => do
      let ino ← onVolume (readIno inode)
      -- the inode is not given back
      if sIsdir ino.iMode then return eisdir
      else do
        let p ← readFsProc who
        let lastdir ← Prog.ofOption eaten.lastDir
        let ret ← onVolume (removeInodeFromDir p.owner lastdir inode eaten.string)
        let _ ← onVolume (putInode (some inode) false)
        let ino ← onVolume (readIno inode)
        if ino.iNlinks = 0#32 ∧ ino.iCount = 0 then releaseIno inode else return ret

/-- `sys_unlink`. -/
def sysUnlink (who : ProcNr) (path : List Word) : FilesM Int := do
  let eaten ← eatPathOf who path
  let ret ← unlinkEaten who eaten
  putIfAny eaten.lastDir false
  return ret

/-! ### Directories and devices -/

/-- `sys_chdir`. -/
def sysChdir (who : ProcNr) (path : List Word) : FilesM Int := do
  let (ret, inode) ← getInodeByPathOf who path
  if ret ≠ 0 then return ret
  else match inode with
    | none => return eexist
    | some inode => do
      let ino ← onVolume (readIno inode)
      if !sIsdir ino.iMode then do
        putIfAny (some inode) false
        return enotdir
      else do
        let p ← readFsProc who
        updateFsProc who fun p => { p with dirs := { p.dirs with fpWorkdir := some inode } }
        putIfAny p.dirs.fpWorkdir false
        return ok

/-- The new directory of `sys_mkdir`, before it has a name. -/
def initDirectory (owner : Owner) (mode : Word) (lastdir inode : InodeNr) : VolM PUnit := do
  let dir ← readIno lastdir
  updateInode inode fun i => { i with iMode := sIfdir ||| (mode &&& ~~~owner.umask) }
  let bnr ← allocBlock inode dir.iDev
  updateInode inode fun i =>
    { i with
      iZone := Function.update i.iZone 0 (BitVec.ofInt 32 bnr), iSize := BitVec.ofNat 32 blockSize }
  let _ ← initDirent lastdir inode
  return ⟨⟩

/-- `sys_mkdir`. -/
def sysMkdir (who : ProcNr) (path : List Word) (mode : Word) : FilesM Int := do
  let eaten ← eatPathOf who path
  let p ← readFsProc who
  if eaten.ret ≠ 0 then return eaten.ret
  else if eaten.retIno.isSome then do
    putIfAny eaten.retIno false
    putIfAny eaten.lastDir false
    return eexist
  else do
    let lastdir ← Prog.ofOption eaten.lastDir
    let dir ← onVolume (readIno lastdir)
    match ← onVolume (allocInode p.owner dir.iDev dir.iDev) with
    | none => do
      putIfAny (some lastdir) false
      return enospc
    | some inode => do
      onVolume (initDirectory p.owner mode lastdir inode)
      let ret ← onVolume (addInodeToDirectory p.owner lastdir inode eaten.string)
      if ret ≠ 0 then do
        let _ ← releaseIno inode
        putIfAny (some lastdir) false
        return ret
      else do
        putIfAny (some inode) true
        putIfAny (some lastdir) true
        return ret

/-- `sys_mknod`. A new inode that could not be entered is released and then given back. -/
def sysMknod (who : ProcNr) (path : List Word) (mode devid : Word) : FilesM Int := do
  match getDev devid with
  | none => return enxio
  | some dev => do
    let eaten ← eatPathOf who path
    let p ← readFsProc who
    if eaten.ret ≠ 0 then return eaten.ret
    else if eaten.retIno.isSome ∨ eaten.string = [] then do
      putIfAny eaten.retIno false
      putIfAny eaten.lastDir false
      return eexist
    else do
      let lastdir ← Prog.ofOption eaten.lastDir
      let dir ← onVolume (readIno lastdir)
      match ← onVolume (allocInode p.owner dir.iDev (some dev)) with
      | none => do
        putIfAny (some lastdir) false
        return enospc
      | some inode => do
        let ret ← onVolume (addInodeToDirectory p.owner lastdir inode eaten.string)
        if ret ≠ 0 then do
          let _ ← releaseIno inode
          putIfAny (some inode) false
          putIfAny (some lastdir) false
          return ret
        else do
          onVolume (updateInode inode fun i =>
            { i with iMode := dev.deviceType ||| (mode &&& ~~~p.owner.umask) })
          putIfAny (some inode) false
          putIfAny (some lastdir) true
          return ret

/-! ### Reading -/

/-- `sys_stat`, without the buffer it fills. -/
def sysStat (who : ProcNr) (path : List Word) : FilesM Int := do
  let (ret, inode) ← getInodeByPathOf who path
  if ret ≠ 0 then return ret
  else match inode with
    | none => return enoent
    | some inode => do
      let ino ← onVolume (readIno inode)
      let _ ← Prog.ofOption ino.iDev
      putIfAny (some inode) false
      return ok

/-- `has_file_access` on a pointer that may be null. It is not followed for the superuser. -/
def mayAccess (owner : Owner) (inode : Option InodeNr) (mode : Word) : FilesM Bool := do
  if owner.uid = 0#32 then return true
  else do
    let ino ← onVolume (readIno (← Prog.ofOption inode))
    return hasFileAccess owner ino mode

/-- `sys_access`. -/
def sysAccess (who : ProcNr) (path : List Word) (mode : Word) : FilesM Int := do
  let (ret, inode) ← getInodeByPathOf who path
  if mode = 0#32 then
    if inode = none then return enoent
    else do
      putIfAny inode false
      return ret
  else do
    let p ← readFsProc who
    let access ← mayAccess p.owner inode mode
    putIfAny inode false
    return if access then ok else eacces

/-- `sys_statfs`, without the buffer it fills. -/
def sysStatfs (who : ProcNr) (path : List Word) : FilesM Int := do
  let eaten ← eatPathOf who path
  if eaten.ret ≠ 0 then return eaten.ret
  else do
    let w ← get
    let ret := match eaten.lastDir with
      | none => enoent
      | some lastDir =>
        if getSb w.vol (w.vol.inodeTable lastDir).iDev = none then enosys else ok
    putIfAny eaten.lastDir false
    putIfAny eaten.retIno false
    return ret

/-! ### `getcwd.c` -/

section Getcwd

-- `files` runs a program over the files, and `write` stores words through a pointer of the caller
variable {m : Type → Type} [Monad m] (files : {α : Type} → FilesM α → m α)
  (write : Word → Nat → (Nat → Word) → m PUnit)

/-- The loop of `sys_getcwd`, with the pointer to the part of the path that there is: the inode it ends
at, the pointer, and an error or none. Every round makes the path longer. -/
def getcwdLoop (size : Int) : Nat → InodeNr → Int → Word → m (InodeNr × Word × Option Int)
  | 0, _, _, _ => files Prog.fault
  | fuel + 1, inode, len, p => do
    let ino ← files (onVolume (readIno inode))
    if ino.iNum = rootInodeNum then return (inode, p, none)
    else do
      let inum ← files (onVolume (getParentInodeNum inode))
      let parent ← files (onVolume (getInode inum ino.iDev))
      match ← files (onVolume (getChildInodeName parent inode)) with
      -- the parent is not given back
      | none => return (inode, p, some efault)
      | some string => do
        files (putIfAny (some inode) false)
        let len := len + string.length + 1
        if size ≤ len then return (parent, p, some erange)
        else do
          write (p - 1) 1 fun _ => slash
          let p := p - 1 - BitVec.ofNat 32 string.length
          write p string.length fun i => string.getD i 0#32
          getcwdLoop size fuel parent len p

/-- `sys_getcwd` after its checks, with the pointer behind the buffer: the pointer to the path. -/
def getcwdFrom (who : ProcNr) (size : Int) (p : Word) : m (Except Int Word) := do
  write p 1 fun _ => 0#32
  let proc ← files (readFsProc who)
  let workdir ← files (Prog.ofOption proc.dirs.fpWorkdir)
  files (onVolume (updateInode workdir fun i => { i with iCount := i.iCount + 1 }))
  let (inode, p, failed) ← getcwdLoop files write size (size.toNat + 1) workdir 1 p
  match failed with
  | some ret => do
    files (putIfAny (some inode) false)
    return .error ret
  | none => do
    write (p - 1) 1 fun _ => slash
    files (putIfAny (some inode) false)
    return .ok (p - 1)

end Getcwd

/-- `sys_getcwd` on the files alone, for a buffer at this virtual address; `accessible` is the check
of both its ends. -/
def sysGetcwd (who : ProcNr) (pathname size : Int) (accessible : Bool) : FilesM Int := do
  if !accessible then return efault
  else if size ≤ 1 then return erange
  else
    match ← getcwdFrom (fun x => x)
      (fun _ _ _ => pure ⟨⟩) who size (BitVec.ofInt 32 (pathname + size)) with
    | .error ret => return ret
    | .ok p => return p.toInt

/-! ### The system -/

/-- The system calls on files. -/
inductive FileEvent
  | openFile (who : ProcNr) (path : List Word) (flags mode : Word)
  | close (who : ProcNr) (fd : Int)
  | dup (who : ProcNr) (oldfd : Int)
  | dup2 (who : ProcNr) (oldfd newfd : Int)
  | pipe (who : ProcNr) (page block : Bool)
  | link (who : ProcNr) (oldpath newpath : List Word)
  | unlink (who : ProcNr) (path : List Word)
  | chdir (who : ProcNr) (path : List Word)
  | mkdir (who : ProcNr) (path : List Word) (mode : Word)
  | mknod (who : ProcNr) (path : List Word) (mode devid : Word)
  | stat (who : ProcNr) (path : List Word)
  | access (who : ProcNr) (path : List Word) (mode : Word)
  | statfs (who : ProcNr) (path : List Word)
  | getcwd (who : ProcNr) (pathname size : Int) (accessible : Bool)
  | fork (who : ProcNr)
  | exit (who : ProcNr) (waited : Bool)
  | wait (child : ProcNr)

/-- The process that the event is about. -/
def FileEvent.who : FileEvent → ProcNr
  | .openFile who .. | .close who _ | .dup who _ | .dup2 who .. | .pipe who .. | .link who ..
  | .unlink who _ | .chdir who _ | .mkdir who .. | .mknod who .. | .stat who _ | .access who ..
  | .statfs who _ | .getcwd who .. | .fork who | .exit who _ | .wait who => who

/-- What the kernel does for the event. -/
def FileEvent.run : FileEvent → FilesM PUnit
  | .openFile who path flags mode => do let _ ← sysOpen who path flags mode
  | .close who fd => do let _ ← sysClose who fd
  | .dup who oldfd => do let _ ← sysDup who oldfd
  | .dup2 who oldfd newfd => do let _ ← sysDup2 who oldfd newfd
  | .pipe who page block => do let _ ← sysPipe who page block
  | .link who oldpath newpath => do let _ ← sysLink who oldpath newpath
  | .unlink who path => do let _ ← sysUnlink who path
  | .chdir who path => do let _ ← sysChdir who path
  | .mkdir who path mode => do let _ ← sysMkdir who path mode
  | .mknod who path mode devid => do let _ ← sysMknod who path mode devid
  | .stat who path => do let _ ← sysStat who path
  | .access who path mode => do let _ ← sysAccess who path mode
  | .statfs who path => do let _ ← sysStatfs who path
  | .getcwd who pathname size accessible => do let _ ← sysGetcwd who pathname size accessible
  | .fork who => forkFiles who
  | .exit who waited => exitFiles who waited
  | .wait child => reapFiles child

/-- A zombie can be killed once more and be waited for. -/
def FileEvent.befallsZombies : FileEvent → Bool
  | .exit .. | .wait _ => true
  | _ => false

/-- One event of a process that is in use. -/
def fileStep (w : Files) (event : FileEvent) : Option Files :=
  let p := w.procs event.who
  if event.who ∈ procSlots ∧ p.inUse ∧ (!p.zombie ∨ event.befallsZombies) then
    (event.run w).map Prod.snd
  else none

end Winix.Fs
