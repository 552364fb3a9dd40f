/-
**Paths.**

`fs/path.c`. A path is the list of its characters up to the terminating zero; a character is a word.
`eat_path` ends in the last component's directory, the inode of the last component and its name, each
of which may be missing, and a return code.
-/

import Winix.Fs.Directory

namespace Winix.Fs

open Kernel Lib

/-- `NAME_MAX`. -/
def nameMax : Nat := 32
/-- `PATH_MAX`. -/
def pathMax : Nat := 128
/-- `'/'`. -/
def slash : Word := 47#32

/-- `get_name`: what is left of the path, if it was not too long, and the component. A component of
`NAME_MAX` characters or more is cut off and not terminated; what follows it is taken to be zero. -/
def getName (oldName : List Word) : Option (List Word) × List Word :=
  let rnp := oldName.dropWhile (· = slash)
  let skipped := oldName.length - rnp.length
  let name := (rnp.take (pathMax - skipped)).takeWhile (· ≠ slash)
  let rnp := rnp.drop name.length
  let used := skipped + name.length
  let trailing := (rnp.take (pathMax - used)).takeWhile (· = slash)
  let rest := rnp.drop trailing.length
  (if pathMax ≤ used + trailing.length then none else some rest, name.take nameMax)

/-- How `eat_path` ends: its result, `*last_dir`, `*ret_ino` and `string`. -/
structure Eaten where
  ret : Int
  lastDir : Option InodeNr
  retIno : Option InodeNr
  string : List Word
  deriving DecidableEq

/-- The end of `__eath_path`, at the last component. -/
def eatLast (rip : InodeNr) (string : List Word) : VolM Eaten := do
  let dir ← readIno rip
  if anyBit dir.iMode sIfdir then do
    let inum ← advance rip string
    if inum = err then return ⟨ok, some rip, none, string⟩
    else do
      let newRip ← getInode inum dir.iDev
      return ⟨ok, some rip, some newRip, string⟩
  else return ⟨enotdir, none, none, string⟩

/-- The loop of `__eath_path`. Every round takes a character off the path. -/
def eatComponents (dev : Option DevId) : Nat → InodeNr → List Word → VolM Eaten
  | 0, _, _ => Prog.fault
  | fuel + 1, rip, path =>
    match getName path with
    | (none, string) => return ⟨enoent, none, none, string⟩
    | (some [], string) => eatLast rip string
    | (some componentName, string) => do
      let dir ← readIno rip
      if !anyBit dir.iMode sIfdir then return ⟨enotdir, none, none, string⟩
      else do
        let inum ← advance rip string
        -- the directory is not given back, and there is no last directory
        if inum = err then return ⟨ok, none, none, string⟩
        else do
          let _ ← putInode (some rip) false
          let newRip ← getInode inum dev
          eatComponents dev fuel newRip componentName

/-- `__eath_path`; `string` is not set when the path is empty. -/
def eathPath (currIno : InodeNr) (path : List Word) : VolM Eaten := do
  let rip ← readIno currIno
  if rip.iNlinks = 0#32 ∨ path = [] then return ⟨enoent, none, none, []⟩
  else eatComponents rip.iDev (path.length + 1) currIno path

/-- The directories of a process. -/
structure Dirs where
  fpRootdir : Option InodeNr
  fpWorkdir : Option InodeNr
  deriving DecidableEq, Repr

/-- The directories with which a path is looked up: a process that lacks one gets the root for
both. -/
def setDirs (dirs : Dirs) : VolM (InodeNr × InodeNr) :=
  match dirs with
  | ⟨some rootdir, some workdir⟩ => return (rootdir, workdir)
  | _ => do
    let currDir ← getInode rootInodeNum (getDev 0x101#32)
    return (currDir, currDir)

/-- `eat_path`. -/
def eatPath (dirs : Dirs) (path : List Word) : VolM (Eaten × Dirs) := do
  let (rootdir, workdir) ← setDirs dirs
  let currDir := if path.head? = some slash then rootdir else workdir
  updateInode currDir fun i => { i with iCount := i.iCount + 1 }
  let eaten ← eathPath currDir path
  return (eaten, ⟨some rootdir, some workdir⟩)

/-- `get_inode_by_path`: the result and `*inode`. -/
def getInodeByPath (dirs : Dirs) (path : List Word) : VolM ((Int × Option InodeNr) × Dirs) := do
  let (eaten, dirs) ← eatPath dirs path
  let _ ← putInode eaten.lastDir false
  return ((eaten.ret, eaten.retIno), dirs)

end Winix.Fs
