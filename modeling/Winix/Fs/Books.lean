/-
**What the calls on paths leave alone.**

The calls that look up paths change inodes, directories and the directories of the caller. No
descriptor and no count of an open file changes: every one of them keeps the `book`.
-/

import Winix.Fs.Calls
import Winix.Lib.Refcount

namespace Winix.Fs

open Kernel Lib Function

/-! ### The books -/

/-- All descriptors. -/
def descriptorKeys : List (ProcNr × Fd) := procSlots ×ˢ fdSlots

theorem descriptorKeys_nodup : descriptorKeys.Nodup :=
  List.Nodup.product (by decide) (List.nodup_finRange _)

theorem mem_descriptorKeys {who : ProcNr} (member : who ∈ procSlots) (fd : Fd) :
    (who, fd) ∈ descriptorKeys :=
  List.pair_mem_product.mpr ⟨member, List.mem_finRange fd⟩

/-- What a descriptor points to, if its process is in use. -/
def FsProc.points (p : FsProc) (fd : Fd) : Option FilpNr := if p.inUse then p.fpFilp fd else none

/-- The slot of `fd_table` behind a descriptor. -/
def Files.points (w : Files) (key : ProcNr × Fd) : Option FilpNr := (w.procs key.1).points key.2

/-- The number of descriptors of processes in use that point to the slot. -/
def descriptors (w : Files) (f : FilpNr) : Int := holders descriptorKeys w.points f

/-- The count of a slot without its descriptors. -/
def gap (w : Files) (f : FilpNr) : Int := (w.fdTable f).filpCount - descriptors w f

/-- The descriptors of a process. -/
def FsProc.table (p : FsProc) : Bool × Bool × (Fd → Option FilpNr) := (p.inUse, p.zombie, p.fpFilp)

/-- The counts and devices of the slots. -/
def Files.slots (w : Files) (f : FilpNr) : Int × Option DevId :=
  ((w.fdTable f).filpCount, (w.fdTable f).filpDev)

/-- What the count of descriptors depends on. -/
def Files.book (w : Files) :
    (FilpNr → Int × Option DevId) × (ProcNr → Bool × Bool × (Fd → Option FilpNr)) :=
  (w.slots, fun p => (w.procs p).table)

section Book

variable {w w' : Files} {who : ProcNr} {f : FilpNr}

theorem table_of_book (same : w'.book = w.book) (p : ProcNr) :
    (w'.procs p).table = (w.procs p).table := congrFun (congrArg Prod.snd same) p

theorem slots_of_book (same : w'.book = w.book) : w'.slots = w.slots := congrArg Prod.fst same

theorem points_of_table {p p' : FsProc} (same : p'.table = p.table) : p'.points = p.points := by
  funext fd
  simp only [FsProc.points, show p'.inUse = p.inUse from congrArg Prod.fst same,
    show p'.fpFilp = p.fpFilp from congrArg (fun table => table.2.2) same]

theorem descriptors_of_tables (same : ∀ p, (w'.procs p).table = (w.procs p).table) (f : FilpNr) :
    descriptors w' f = descriptors w f :=
  holders_congr (fun key _ => congrFun (points_of_table (same key.1)) key.2) f

theorem gap_of_book (same : w'.book = w.book) : gap w' = gap w := by
  funext f
  have count : (w'.fdTable f).filpCount = (w.fdTable f).filpCount :=
    congrArg Prod.fst (congrFun (slots_of_book same) f)
  rw [gap, gap, count, descriptors_of_tables (table_of_book same)]

end Book

/-! ### Calls on paths -/

section Paths

variable {α : Type}
variable {who : ProcNr} {path : List Word} {inode : Option InodeNr}

theorem onVolume_eq_some {x : VolM α} {w w' : Files} {a : α} :
    onVolume x w = some (a, w') ↔ ∃ vol, x w.vol = some (a, vol) ∧ w' = { w with vol } := by
  simp only [onVolume, Option.map_eq_some_iff, Prod.exists, Prod.mk.injEq]
  constructor
  · rintro ⟨a', vol, ran, rfl, rfl⟩
    exact ⟨vol, ran, rfl⟩
  · rintro ⟨vol, ran, rfl⟩
    exact ⟨a, vol, ran, rfl, rfl⟩

theorem onVolume_book {x : VolM α} : Keeps Files.book (onVolume x) := by
  intro w a w' ran
  obtain ⟨vol, -, rfl⟩ := onVolume_eq_some.mp ran
  rfl

theorem readFsProc_book : Keeps Files.book (readFsProc who) := Keeps.get.bind fun _ => .pure

theorem updateFsProc_book {change : FsProc → FsProc} (same : ∀ p, (change p).table = p.table) :
    Keeps Files.book (updateFsProc who change) := by
  refine Keeps.modify fun w => Prod.ext rfl (funext fun p => ?_)
  show (update w.procs who (change (w.procs who)) p).table = (w.procs p).table
  by_cases here : p = who
  · rw [here, update_self, same]
  · rw [update_of_ne here]

theorem releaseIno_book {ino : InodeNr} : Keeps Files.book (releaseIno ino) := by
  refine Keeps.bind (Keeps.modify ?_) fun _ => onVolume_book
  exact fun _ => rfl

theorem updateDirs_book {dirs : FsProc → Dirs} :
    Keeps Files.book (updateFsProc who fun p => { p with dirs := dirs p }) :=
  updateFsProc_book fun _ => rfl

theorem getNextIno_book : Keeps Files.book getNextIno := by
  refine Keeps.get.bind fun w => Keeps.bind (Keeps.modify ?_) fun _ => .pure
  exact fun _ => rfl

theorem eatPathOf_book : Keeps Files.book (eatPathOf who path) :=
  readFsProc_book.bind fun _ => onVolume_book.bind fun _ => updateDirs_book.bind fun _ => .pure

theorem getInodeByPathOf_book : Keeps Files.book (getInodeByPathOf who path) :=
  eatPathOf_book.bind fun _ => onVolume_book.bind fun _ => .pure

theorem putIfAny_book {isDirty : Bool} : Keeps Files.book (putIfAny inode isDirty) :=
  onVolume_book.bind fun _ => .pure

theorem putIfAny_return {isDirty : Bool} {a : α} :
    Keeps Files.book (do putIfAny inode isDirty; return a : FilesM α) :=
  putIfAny_book.bind fun _ => .pure

theorem putTwo_return {first second : Option InodeNr} {dirty dirty' : Bool} {a : α} :
    Keeps Files.book (do putIfAny first dirty; putIfAny second dirty'; return a : FilesM α) :=
  putIfAny_book.bind fun _ => putIfAny_return

theorem openInode_book {flags mode : Word} {dev : DevId} {eaten : Eaten} :
    Keeps Files.book (openInode who flags mode dev eaten) := by
  refine readFsProc_book.bind fun p => ?_
  cases eaten.retIno with
  | some inode => exact onVolume_book.bind fun _ => .ite .pure (.ite .pure .pure)
  | none =>
    refine .ite .pure (.ite .pure (onVolume_book.bind fun found => ?_))
    cases found with
    | none => exact .pure
    | some inode =>
      refine Keeps.ofOption.bind fun lastdir => onVolume_book.bind fun ret => .ite ?_ ?_
      · exact releaseIno_book.bind fun _ => .pure
      · exact onVolume_book.bind fun _ => .pure

theorem linkTo_book {oldinode : Option InodeNr} {newpath : List Word} :
    Keeps Files.book (linkTo who oldinode newpath) := by
  refine eatPathOf_book.bind fun eaten => readFsProc_book.bind fun p => ?_
  refine .ite putTwo_return (.ite putTwo_return (Keeps.ofOption.bind fun lastdir => ?_))
  refine Keeps.bind ?_ fun ret => putIfAny_return
  cases oldinode with
  | some inode => exact onVolume_book
  | none => exact onVolume_book.bind fun ret => .ite .fault .pure

theorem sysLink_book {oldpath newpath : List Word} : Keeps Files.book (sysLink who oldpath newpath) :=
  getInodeByPathOf_book.bind fun _ => .ite putIfAny_return (linkTo_book.bind fun _ => putIfAny_return)

theorem unlinkEaten_book {eaten : Eaten} : Keeps Files.book (unlinkEaten who eaten) := by
  refine .ite .pure ?_
  cases eaten.retIno with
  | none => exact .pure
  | some inode =>
    refine onVolume_book.bind fun ino => .ite .pure (readFsProc_book.bind fun p => ?_)
    refine Keeps.ofOption.bind fun lastdir => onVolume_book.bind fun ret => ?_
    exact onVolume_book.bind fun _ => onVolume_book.bind fun ino => .ite releaseIno_book .pure

theorem sysUnlink_book : Keeps Files.book (sysUnlink who path) :=
  eatPathOf_book.bind fun _ => unlinkEaten_book.bind fun _ => putIfAny_return

theorem sysChdir_book : Keeps Files.book (sysChdir who path) := by
  refine getInodeByPathOf_book.bind fun found => .ite .pure ?_
  cases found.2 with
  | none => exact .pure
  | some inode =>
    refine onVolume_book.bind fun ino => .ite putIfAny_return (readFsProc_book.bind fun p => ?_)
    exact updateDirs_book.bind fun _ => putIfAny_return

theorem sysMkdir_book {mode : Word} : Keeps Files.book (sysMkdir who path mode) := by
  refine eatPathOf_book.bind fun eaten =>
    readFsProc_book.bind fun p => .ite .pure (.ite putTwo_return ?_)
  refine Keeps.ofOption.bind fun lastdir => onVolume_book.bind fun dir =>
    onVolume_book.bind fun found => ?_
  cases found with
  | none => exact putIfAny_return
  | some inode =>
    refine onVolume_book.bind fun _ => onVolume_book.bind fun ret => .ite ?_ putTwo_return
    exact releaseIno_book.bind fun _ => putIfAny_return

theorem sysMknod_book {mode devid : Word} : Keeps Files.book (sysMknod who path mode devid) := by
  unfold sysMknod
  cases getDev devid with
  | none => exact .pure
  | some dev =>
    refine eatPathOf_book.bind fun eaten => readFsProc_book.bind fun p => ?_
    refine .ite .pure (.ite putTwo_return (Keeps.ofOption.bind fun lastdir => ?_))
    refine onVolume_book.bind fun dir => onVolume_book.bind fun found => ?_
    cases found with
    | none => exact putIfAny_return
    | some inode =>
      refine onVolume_book.bind fun ret => .ite ?_ ?_
      · exact releaseIno_book.bind fun _ => putTwo_return
      · exact onVolume_book.bind fun _ => putTwo_return

theorem sysStat_book : Keeps Files.book (sysStat who path) := by
  refine getInodeByPathOf_book.bind fun found => .ite .pure ?_
  cases found.2 with
  | none => exact .pure
  | some inode => exact onVolume_book.bind fun ino => Keeps.ofOption.bind fun _ => putIfAny_return

theorem sysAccess_book {mode : Word} : Keeps Files.book (sysAccess who path mode) := by
  refine getInodeByPathOf_book.bind fun found => .ite (.ite .pure putIfAny_return) ?_
  refine readFsProc_book.bind fun p => Keeps.bind ?_ fun _ => putIfAny_return
  exact .ite .pure (Keeps.ofOption.bind fun _ => onVolume_book.bind fun _ => .pure)

theorem sysStatfs_book : Keeps Files.book (sysStatfs who path) :=
  eatPathOf_book.bind fun _ => .ite .pure (Keeps.get.bind fun _ => putTwo_return)

theorem getcwdLoop_book {size : Int} {fuel : Nat} {inode : InodeNr} {len : Int} {p : Word} :
    Keeps Files.book (getcwdLoop (fun x => x) (fun _ _ _ => pure ⟨⟩) size fuel inode len p) := by
  induction fuel generalizing inode len p with
  | zero => exact .fault
  | succ fuel ih =>
    refine onVolume_book.bind fun ino => .ite .pure (onVolume_book.bind fun inum => ?_)
    refine onVolume_book.bind fun parent => onVolume_book.bind fun found => ?_
    cases found with
    | none => exact .pure
    | some string =>
      exact putIfAny_book.bind
        fun _ => .ite .pure (Keeps.pure.bind fun _ => Keeps.pure.bind fun _ => ih)

theorem sysGetcwd_book {pathname size : Int} {accessible : Bool} :
    Keeps Files.book (sysGetcwd who pathname size accessible) := by
  refine .ite .pure (.ite .pure (Keeps.bind ?_ fun found => ?_))
  · refine Keeps.pure.bind fun _ => readFsProc_book.bind fun p => Keeps.ofOption.bind fun workdir => ?_
    refine onVolume_book.bind fun _ => getcwdLoop_book.bind fun (inode, p, failed) => ?_
    cases failed with
    | some ret => exact putIfAny_book.bind fun _ => .pure
    | none => exact Keeps.pure.bind fun _ => putIfAny_book.bind fun _ => .pure
  · cases found with
    | error ret => exact .pure
    | ok p => exact .pure

end Paths

end Winix.Fs
