/-
**Descriptors that are replaced and descriptors that are not made.**

`sys_dup2` demands a free descriptor and a free slot of `fd_table` that it does not use, closes what
the new descriptor refers to, and only then reads the old one. `sys_pipe` takes a page, a block of
the kernel heap, an inode and two descriptors, and gives back what it has when one of them is not there.

* `Dup2Right`, **`dup2_right_iff`**: `dup2` is right but for a descriptor that is duplicated onto
  itself;
* `PipeUndone`, **`pipe_atomic_iff`**: a `pipe` that fails leaves no trace, unless it fails for want
  of a descriptor, when the inode stays in use, or after the heap has grown, when the page of the
  heap does.
-/

import Winix.Fs.Counts
import Winix.Kernel.Slab

namespace Winix.Fs

open Kernel Lib Function List Option Prog

/-! ### `dup2` -/

/-- One more descriptor of a file. -/
def Files.share (w : Files) (who : ProcNr) (new : Fd) (file1 : FilpNr) : Files :=
  { w with
    procs := update w.procs who
      { w.procs who with fpFilp := update (w.procs who).fpFilp new (some file1) }
    fdTable := update w.fdTable file1
      { w.fdTable file1 with filpCount := (w.fdTable file1).filpCount + 1 } }

/-- What a descriptor refers to has been closed, once, if there is anything. -/
def ClosedOnce (held : Option FilpNr) (w w' : Files) : Prop :=
  match held with
  | none => w' = w
  | some g => closeFilp g w = some (ok, w')

/-- No descriptor of any process is another. -/
def SameFds (w w' : Files) : Prop := ∀ p, (w'.procs p).fpFilp = (w.procs p).fpFilp

/-- **A successful `dup2`**: both descriptors refer to one slot, what the new one referred to before
has been closed once, and the others are as before. -/
structure Dup2Done (w : Files) (who : ProcNr) (oldfd newfd : Int) (ret : Int) (w' : Files) : Prop where
  result : ret = newfd
  fds : ∃ old new file1, fdIndex oldfd = some old ∧ fdIndex newfd = some new ∧
    (w.procs who).fpFilp old = some file1 ∧ (w'.procs who).fpFilp old = some file1 ∧
    (w'.procs who).fpFilp new = some file1 ∧
    (∀ fd, fd ≠ new → (w'.procs who).fpFilp fd = (w.procs who).fpFilp fd) ∧
    -- a slot that was free is cleared, and the count of the file goes up
    ∃ f w₁, (w.fdTable f).filpCount = 0 ∧ ClosedOnce ((w.procs who).fpFilp new) (w.clearSlot f) w₁ ∧
      w' = w₁.share who new file1
  others : ∀ p, p ≠ who → (w'.procs p).fpFilp = (w.procs p).fpFilp

/-- **`dup2` as it should be.** -/
structure Dup2Right (w : Files) (who : ProcNr) (oldfd newfd : Int) : Prop where
  same : oldfd = newfd → ∃ ret, sysDup2 who oldfd newfd w = some (ret, w)
  success : oldfd ≠ newfd → ∀ ret w', sysDup2 who oldfd newfd w = some (ret, w') → 0 ≤ ret →
    Dup2Done w who oldfd newfd ret w'
  failure : ∀ ret w', sysDup2 who oldfd newfd w = some (ret, w') → ret < 0 → SameFds w w'

section Dup2

variable {w w' : Files} {who : ProcNr} {oldfd newfd ret : Int} {old new : Fd} {file1 f : FilpNr}

/-- An open descriptor is shared. -/
theorem dupOnto_run (held : (w.procs who).fpFilp old = some file1) :
    dupOnto who old new w = some ((new.val : Int), w.share who new file1) := by
  rw [dupOnto, bind_run readFsProc_run, held]
  rfl

/-- A closed one is a null pointer. -/
theorem dupOnto_null (none : (w.procs who).fpFilp old = none) :
    dupOnto who old new w = Option.none := by
  rw [dupOnto, bind_run readFsProc_run, none]
  rfl

/-- A descriptor that is shared may have been cleared before. -/
theorem share_setFd {a : PUnit} (cleared : setFd who new none w = some (a, w')) :
    w'.share who new file1 = w.share who new file1 := by
  cases cleared
  simp only [Files.share, update_self, update_idem]

/-- An open new descriptor is closed first. -/
theorem replaceFd_held {g : FilpNr} (held : (w.procs who).fpFilp new = some g)
    (ran : replaceFd who old new w = some (ret, w')) :
    ∃ w₁ w₂, closeFilp g w = some (ok, w₁) ∧ setFd who new none w₁ = some (⟨⟩, w₂) ∧
      dupOnto who old new w₂ = some (ret, w') := by
  rw [replaceFd, bind_run readFsProc_run, if_neg (by rw [held]; exact some_ne_none g)] at ran
  obtain ⟨closed, w₂, close, ran⟩ := bind_eq_some.mp ran
  obtain ⟨rfl, w₁, closes, clears⟩ := sysClose_opened (fdOpened_of_some held) close
  exact ⟨w₁, w₂, closes, clears, ran⟩

/-- In both cases the old one is shared in the end. -/
theorem replaceFd_ran (apart : old ≠ new) (held : (w.procs who).fpFilp old = some file1)
    (ran : replaceFd who old new w = some (ret, w')) :
    ret = new.val ∧ ∃ w₁, ClosedOnce ((w.procs who).fpFilp new) w w₁ ∧ w₁.procs = w.procs ∧
      w' = w₁.share who new file1 := by
  cases before : (w.procs who).fpFilp new with
  | none =>
    rw [replaceFd, bind_run readFsProc_run, if_pos before, dupOnto_run held] at ran
    cases ran
    exact ⟨rfl, w, rfl, rfl, rfl⟩
  | some g =>
    obtain ⟨w₁, w₂, closes, clears, ran⟩ := replaceFd_held before ran
    have procs : w₁.procs = w.procs := closeFilp_procs w ok w₁ closes
    have held₂ : (w₂.procs who).fpFilp old = some file1 := by
      rw [setFd_proc clears, procs]
      simp [apart, held]
    rw [dupOnto_run held₂, share_setFd clears] at ran
    cases ran
    exact ⟨rfl, w₁, closes, procs, rfl⟩

/-- A descriptor that is replaced by itself is closed before it is read. -/
theorem replaceFd_self (held : (w.procs who).fpFilp old ≠ none) : replaceFd who old old w = none := by
  obtain ⟨g, held⟩ := ne_none_iff_exists'.mp held
  cases ran : replaceFd who old old w with
  | none => rfl
  | some result =>
    obtain ⟨w₁, w₂, -, clears, ran⟩ := replaceFd_held held ran
    have gone : (w₂.procs who).fpFilp old = none := by
      rw [setFd_proc clears]
      simp
    rw [dupOnto_null gone] at ran
    cases ran

/-- An open descriptor is a descriptor. -/
theorem fdOpened_index {p : FsProc} {fd : Int} {slot : Fd × FilpNr}
    (opened : fdOpened p fd = some slot) :
    fdIndex fd = some slot.1 := by
  obtain ⟨index, found, opened⟩ := bind_eq_some_iff.mp opened
  obtain ⟨f, held, opened⟩ := bind_eq_some_iff.mp opened
  cases opened
  exact found

/-- The index is the number. -/
theorem fdIndex_eq_some {fd : Int} {index : Fd} (found : fdIndex fd = some index) :
    (index.val : Int) = fd := by
  unfold fdIndex at found
  split at found
  · rename_i inside
    cases found
    exact Int.toNat_of_nonneg inside.1
  · cases found

/-- **`dup2` on another descriptor.** -/
theorem replaceFd_done (opened : fdOpened (w.procs who) oldfd = some (old, file1))
    (index : fdIndex newfd = some new) (apart : oldfd ≠ newfd) (unused : (w.fdTable f).filpCount = 0)
    (ran : replaceFd who old new (w.clearSlot f) = some (ret, w')) :
    Dup2Done w who oldfd newfd ret w' := by
  have held : (w.procs who).fpFilp old = some file1 := fdOpened_eq_some opened
  have place := fdOpened_index opened
  have other : old ≠ new := fun same => by
    rw [same, ← index] at place
    exact apart ((fdIndex_eq_some (place.trans index)).symm.trans (fdIndex_eq_some index))
  obtain ⟨rfl, w₁, closes, procs, rfl⟩ := replaceFd_ran (w := w.clearSlot f) other held ran
  have table : ((w₁.share who new file1).procs who).fpFilp =
      update (w.procs who).fpFilp new (some file1) := by
    simp only [Files.share, update_self]
    rw [procs]
    rfl
  refine ⟨fdIndex_eq_some index,
    ⟨old, new, file1, place, index, held, ?_, ?_, fun fd ne => ?_, f, w₁, unused,
    closes, rfl⟩, fun p ne => ?_⟩
  · rw [table, update_of_ne other, held]
  · rw [table, update_self]
  · rw [table, update_of_ne ne]
  · show (update w₁.procs who _ p).fpFilp = _
    rw [update_of_ne ne, procs]
    rfl

/-- **`dup2` is right** for all descriptors, but for one that is open and duplicated onto itself
while there is a free descriptor and a free slot. -/
theorem dup2_right_iff (w : Files) (who : ProcNr) (oldfd newfd : Int) : Dup2Right w who oldfd newfd ↔
    ¬ (oldfd = newfd ∧ (fdOpened (w.procs who) oldfd).isSome = true ∧ FdRoom w who) := by
  rcases sysDup2_cases w who oldfd newfd with
    ⟨ret, negative, ran, why⟩ | ⟨old, file1, new, f, opened, index, room, unused, ran⟩
  · refine iff_of_true ⟨fun _ => ⟨ret, ran⟩, fun _ ret' w' again positive => ?_,
      fun ret' w' again _ => ?_⟩ ?_
    · rw [ran] at again
      cases again
      omega
    · rw [ran] at again
      cases again
      exact fun _ => rfl
    · rintro ⟨rfl, isOpen, room⟩
      obtain ⟨slot, opened⟩ := isSome_iff_exists.mp isOpen
      rcases why with closed | invalid | full
      · rw [closed] at opened
        cases opened
      · rw [fdOpened_index opened] at invalid
        cases invalid
      · exact full room
  · by_cases same : oldfd = newfd
    · subst same
      obtain rfl : old = new := Option.some.inj ((fdOpened_index opened).symm.trans index)
      refine iff_of_false (fun right => ?_) fun good => good ⟨rfl, by rw [opened]; rfl, room⟩
      obtain ⟨ret, back⟩ := right.same rfl
      have held : ((w.clearSlot f).procs who).fpFilp old ≠ none := by
        rw [show ((w.clearSlot f).procs who).fpFilp old = some file1 from fdOpened_eq_some opened]
        exact some_ne_none file1
      rw [ran, replaceFd_self held] at back
      cases back
    · refine iff_of_true ⟨fun equal => absurd equal same, fun _ ret w' again _ => ?_,
        fun ret w' again negative => ?_⟩
        fun bad => same bad.1
      · rw [ran] at again
        exact replaceFd_done opened index same unused again
      · rw [ran] at again
        have result := (replaceFd_done opened index same unused again).result
        have place := fdIndex_eq_some index
        omega

/-- Standard input is open on the terminal. -/
def ttyFiles : Files :=
  { bootFiles (imageVolume plainLayout) with
    procs := fun p => { noProc with
      inUse := decide (p ≤ 2), fpFilp :=
        fun fd => if p = 1 ∧ fd.val = 0 then bootFilps.head? else none } }

/-- `dup2(0, 0)` closes standard input and then reads it. -/
theorem dup2_same_closes : fdOpened (ttyFiles.procs 1) 0 = some (0, 0) ∧ FdRoom ttyFiles 1 ∧
    (sysClose 1 0 ttyFiles).any (fun r => r.1 = ok ∧ fdOpened (r.2.procs 1) 0 = none) = true ∧
    sysDup2 1 0 0 ttyFiles = none ∧ ¬ Dup2Right ttyFiles 1 0 0 := by
  have lost : (sysDup2 1 0 0 ttyFiles).isNone = true := by decide +kernel
  refine ⟨by decide, by decide, by decide +kernel, isNone_iff_eq_none.mp lost, fun right => ?_⟩
  obtain ⟨ret, back⟩ := right.same rfl
  rw [back] at lost
  cases lost

end Dup2

/-! ### `pipe` -/

/-- The files beside the kernel heap and the page allocator. -/
structure PipeState where
  files : Files
  slab : Slab

/-- `sizeof(struct filp_pipe)`. -/
def filpPipeLen : Word := 3#32

/-- `release_pages((ptr_t *)ptr, 1)`. -/
def givePage (slab : Slab) (ptr : Word) : Slab := { slab with mm := (releasePages slab.mm ptr 1).1 }

/-- `sys_pipe` from the inode on, with its page and its block; what it has is given back if that
fails. -/
def sysPipeFrom (who : ProcNr) (files : Files) (slab : Slab) (ptr : Word) (pipe : Nat) :
    Option (Int × PipeState) := do
  let (ret, files) ← sysPipe who true true files
  if ret = ok then some (ret, ⟨files, slab⟩) else some (ret, ⟨files, givePage (kfree slab pipe) ptr⟩)

/-- `sys_pipe`. -/
def sysPipeWhole (who : ProcNr) (s : PipeState) : Option (Int × PipeState) :=
  let page := getFreePages s.slab.mm 1#32 gfpHigh
  if page.2 = 0#32 then some (enomem, { s with slab := { s.slab with mm := page.1 } })
  else do
    let (slab, pipe) ← kmalloc { s.slab with mm := page.1 } filpPipeLen
    match pipe with
    | none => some (enomem, { s with slab := givePage slab page.2 })
    | some pipe => sysPipeFrom who s.files slab page.2 pipe

/-- **Nothing is left of a call**: the descriptors are the same, and so are the slots of `fd_table`,
the inodes and the pages that are free. -/
structure PipeUndone (s s' : PipeState) : Prop where
  fds : SameFds s.files s'.files
  filps : ∀ f, (s'.files.fdTable f).filpCount = 0 ↔ (s.files.fdTable f).filpCount = 0
  inodes : ∀ i, (s'.files.vol.inodeTable i).iNum ≤ 0 ↔ (s.files.vol.inodeTable i).iNum ≤ 0
  pages : ∀ i < pagesNr, bitOn s'.slab.mm.memMap i = bitOn s.slab.mm.memMap i

/-- A `pipe` that fails is undone. -/
def PipeAtomic (s : PipeState) (who : ProcNr) : Prop :=
  ∀ ret s', sysPipeWhole who s = some (ret, s') → ret < 0 → PipeUndone s s'

/-- There are two free descriptors and two free slots. -/
def TwoRoom (w : Files) (who : ProcNr) : Prop :=
  (∃ a b, a ≠ b ∧ (w.procs who).fpFilp a = none ∧ (w.procs who).fpFilp b = none) ∧
    ∃ f g, f ≠ g ∧ (w.fdTable f).filpCount = 0 ∧ (w.fdTable g).filpCount = 0

instance (w : Files) (who : ProcNr) : Decidable (TwoRoom w who) := inferInstanceAs (Decidable (_ ∧ _))

section PipeFiles

variable {w w' : Files} {who : ProcNr} {fd : Fd} {f : FilpNr} {inode : InodeNr} {mode : Word}

/-- `inode->i_count = 0`. -/
def Files.dropInode (w : Files) (inode : InodeNr) : Files :=
  { w with vol := w.vol.updateInode inode fun i => { i with iCount := 0 } }

/-- One end of a pipe is taken back. -/
def Files.undoEnd (w : Files) (who : ProcNr) (fd : Fd) (f : FilpNr) : Files :=
  { w with
    fdTable := update w.fdTable f { w.fdTable f with filpCount := 0 }
    procs := update w.procs who
      { w.procs who with fpFilp := update (w.procs who).fpFilp fd none } }

/-- With the first end made, there is room for one more if there was room for two. -/
theorem fdRoom_pipeEnd (free : (w.procs who).fpFilp fd = none) (unused : (w.fdTable f).filpCount = 0) :
    FdRoom ((w.clearSlot f).pipeEnd who mode inode fd f) who ↔ TwoRoom w who := by
  have table : (((w.clearSlot f).pipeEnd who mode inode fd f).procs who).fpFilp =
      update (w.procs who).fpFilp fd (some f) := by
    simp only [Files.pipeEnd, update_self]
    rfl
  have counts (g : FilpNr) : (((w.clearSlot f).pipeEnd who mode inode fd f).fdTable g).filpCount =
      if g = f then 1 else (w.fdTable g).filpCount := by
    by_cases same : g = f
    · subst same
      simp [Files.pipeEnd, Files.clearSlot, Filp.zero]
    · simp [Files.pipeEnd, Files.clearSlot, same]
  unfold FdRoom TwoRoom
  simp only [table, counts]
  constructor
  · rintro ⟨⟨fd', none⟩, g, zero⟩
    have other : fd' ≠ fd := fun same => by
      rw [same, update_self] at none
      cases none
    have another : g ≠ f := fun same => by
      rw [if_pos same] at zero
      cases zero
    rw [update_of_ne other] at none
    rw [if_neg another] at zero
    exact ⟨⟨fd', fd, other, none, free⟩, g, f, another, zero, unused⟩
  · rintro ⟨⟨a, b, apart, noA, noB⟩, g, h, distinct, zeroG, zeroH⟩
    have fds : ∃ fd', fd' ≠ fd ∧ (w.procs who).fpFilp fd' = none := by
      by_cases same : a = fd
      · exact ⟨b, same ▸ apart.symm, noB⟩
      · exact ⟨a, same, noA⟩
    have slots : ∃ g, g ≠ f ∧ (w.fdTable g).filpCount = 0 := by
      by_cases same : g = f
      · exact ⟨h, same ▸ distinct.symm, zeroH⟩
      · exact ⟨g, same, zeroG⟩
    obtain ⟨fd', other, none⟩ := fds
    obtain ⟨g, another, zero⟩ := slots
    exact ⟨⟨fd', by rw [update_of_ne other]; exact none⟩, g, by rw [if_neg another]; exact zero⟩

/-- The inode keeps its number. -/
theorem dropInode_iNum (w : Files) (inode i : InodeNr) :
    ((w.dropInode inode).vol.inodeTable i).iNum = (w.vol.inodeTable i).iNum := by
  show (update w.vol.inodeTable inode _ i).iNum = _
  by_cases same : i = inode
  · subst same
    rw [update_self]
  · rw [update_of_ne same]

/-- What a failure leaves of the files: the inode apart, nothing is taken. -/
structure FilesUndone (w w' : Files) : Prop where
  fds : SameFds w w'
  filps : ∀ f, (w'.fdTable f).filpCount = 0 ↔ (w.fdTable f).filpCount = 0
  nums : ∀ i, (w'.vol.inodeTable i).iNum = (w.vol.inodeTable i).iNum

/-- An end that is undone leaves the files as they were. -/
theorem pipeEnd_undone (free : (w.procs who).fpFilp fd = none) (unused : (w.fdTable f).filpCount = 0) :
    FilesUndone w ((((w.clearSlot f).pipeEnd who mode inode fd f).undoEnd who fd f).dropInode inode)
      where
  fds p := by
    show (update (update w.procs who _) who _ p).fpFilp = _
    rw [update_idem]
    by_cases same : p = who
    · subst same
      rw [update_self]
      show update (update w.procs p _ p).fpFilp fd none = _
      rw [update_self]
      show update (update (w.procs p).fpFilp fd (some f)) fd none = _
      rw [update_idem, ← free, update_eq_self]
    · rw [update_of_ne same]
  filps g := by
    show (update (update (update w.fdTable f _) f _) f _ g).filpCount = 0 ↔ _
    rw [update_idem, update_idem]
    by_cases same : g = f
    · subst same
      rw [update_self]
      exact iff_of_true rfl unused
    · rw [update_of_ne same]
  nums i := dropInode_iNum (w.clearSlot f) inode i

/-- **The two ends**: both are made, or none. -/
theorem pipeEnds_cases (w : Files) (who : ProcNr) (inode : InodeNr) :
    (TwoRoom w who ∧ ∃ w', pipeEnds who inode w = some (ok, w')) ∨
      (¬ TwoRoom w who ∧ ∃ ret w', ret < 0 ∧ pipeEnds who inode w = some (ret, w') ∧
        FilesUndone w w') := by
  unfold pipeEnds
  rcases getFd_cases w who with ⟨ret, negative, got, full⟩ | ⟨fd, f, free, unused, got⟩
  · refine .inr ⟨fun two => not_fdRoom full ?_, ret, _, negative, bind_run got, fun _ => rfl,
      fun _ => Iff.rfl, ?_⟩
    · obtain ⟨⟨a, -, -, noA, -⟩, g, -, -, zero, -⟩ := two
      exact ⟨⟨a, noA⟩, g, zero⟩
    · exact dropInode_iNum w inode
  · rw [bind_run got]
    dsimp only
    rw [bind_run pipeEnd_run]
    rcases getFd_cases ((w.clearSlot f).pipeEnd who filpPipeRead inode fd f) who with
      ⟨ret, negative, again, full⟩ | ⟨fd₂, f₂, free₂, unused₂, again⟩
    · exact .inr ⟨mt (fdRoom_pipeEnd free unused).mpr (not_fdRoom full), ret, _, negative,
        bind_run again,
        pipeEnd_undone free unused⟩
    · refine .inl ⟨(fdRoom_pipeEnd free unused).mp ⟨⟨fd₂, free₂⟩, f₂, unused₂⟩,
        (((w.clearSlot f).pipeEnd who filpPipeRead inode fd f).clearSlot f₂).pipeEnd who
          filpPipeWrite inode
          fd₂ f₂, ?_⟩
      exact (bind_run again).trans (bind_run pipeEnd_run)

/-- There is an inode that is not in use. -/
def InodeFree (w : Files) : Prop := ∃ i, (w.vol.inodeTable i).iNum ≤ 0

instance (w : Files) : Decidable (InodeFree w) := inferInstanceAs (Decidable (∃ _, _))

/-- The inode of a new pipe. -/
def Files.pipeInode (w : Files) (inode : InodeNr) : Files :=
  { w with
    vol := ((w.vol.updateInode inode fun _ => Inode.zero).updateInode inode fun i =>
      { i with flags := i.flags ||| inodeFlagPipe, iCount := 2, iNlinks := 1 }).updateInode inode
        fun i =>
      { i with iDev := some .pipe, iNum := w.nextInum, iTotalSize := getInodeTotalSizeWord i }
    nextInum := w.nextInum + 1 }

/-- The inode of the pipe gets the next number. -/
theorem pipeInode_iNum (w : Files) (inode i : InodeNr) :
    ((w.pipeInode inode).vol.inodeTable i).iNum = if i = inode then w.nextInum
    else (w.vol.inodeTable i).iNum := by
  by_cases same : i = inode
  · subst same
    simp [Files.pipeInode, Volume.updateInode]
  · simp [Files.pipeInode, Volume.updateInode, same]

/-- **`sys_pipe` with its memory**: there is no inode, or one gets the next number and then its two
ends. -/
theorem sysPipe_cases (w : Files) (who : ProcNr) :
    (¬ InodeFree w ∧ sysPipe who true true w = some (emfile, w)) ∨
      ∃ inode, (w.vol.inodeTable inode).iNum ≤ 0 ∧
        sysPipe who true true w = pipeEnds who inode (w.pipeInode inode) := by
  cases found : inodeSlots.find? fun i => decide ((w.vol.inodeTable i).iNum ≤ 0) with
  | none =>
    have slot : onVolume getFreeInodeSlot w = some (none, w) := by
      unfold onVolume getFreeInodeSlot
      rw [Prog.get_bind, found]
      rfl
    refine .inl ⟨fun free => ?_, ?_⟩
    · obtain ⟨i, low⟩ := free
      exact absurd (decide_eq_true low) (List.find?_eq_none.mp found i (mem_finRange i))
    · rw [sysPipe, if_neg (by decide), bind_run slot]
      rfl
  | some inode =>
    have low := find?_some found
    have slot : onVolume getFreeInodeSlot w = some (some inode,
        { w with vol := w.vol.updateInode inode fun _ => Inode.zero }) := by
      unfold onVolume getFreeInodeSlot
      rw [Prog.get_bind, found]
      rfl
    refine .inr ⟨inode, of_decide_eq_true low, ?_⟩
    rw [sysPipe, if_neg (by decide), bind_run slot]
    rfl

/-- **What is left of the files** when `sys_pipe` fails for want of a descriptor. -/
theorem sysPipe_spec (w : Files) (who : ProcNr) :
    (¬ InodeFree w ∧ sysPipe who true true w = some (emfile, w)) ∨
    (InodeFree w ∧ TwoRoom w who ∧ ∃ w', sysPipe who true true w = some (ok, w')) ∨
    (¬ TwoRoom w who ∧ ∃ ret w' inode, ret < 0 ∧ sysPipe who true true w = some (ret, w') ∧
      SameFds w w' ∧
      (∀ f, (w'.fdTable f).filpCount = 0 ↔ (w.fdTable f).filpCount = 0) ∧
      (w.vol.inodeTable inode).iNum ≤ 0 ∧
      ∀ i, (w'.vol.inodeTable i).iNum = if i = inode then w.nextInum
      else (w.vol.inodeTable i).iNum) := by
  rcases sysPipe_cases w who with none | ⟨inode, low, ran⟩
  · exact .inl none
  · rw [ran]
    rcases pipeEnds_cases (w.pipeInode inode) who inode with ⟨two, w', done⟩ | ⟨one, ret, w',
      negative, done, undone⟩
    · exact .inr (.inl ⟨⟨inode, low⟩, two, w', done⟩)
    · refine .inr (.inr ⟨one, ret, w', inode, negative, done, undone.fds, undone.filps, low,
        fun i => ?_⟩)
      rw [undone.nums, pipeInode_iNum]

end PipeFiles

section PipeMemory

variable {mm mm' : Mm} {kernel : Nat} {taken others : List Range} {s : PipeState} {slab slab' : Slab}
  {live : List (Nat × Nat)} {blocks : List Nat} {page : Nat} {who : ProcNr}

/-- A page is taken. -/
theorem page_taken (inv : PagesInv mm kernel taken) (got : (getFreePages mm 1#32 gfpHigh).2 ≠ 0#32) :
    ∃ page, (getFreePages mm 1#32 gfpHigh).2 = pageToPaddr page ∧
      PagesInv (getFreePages mm 1#32 gfpHigh).1 kernel (⟨page, 1⟩ :: taken) := by
  rcases inv.getFreePages_spec (show 0 < (1#32 : Word).toInt by decide) gfpHigh with
    nothing | ⟨mm', p, result, -, place, inv'⟩
  · rw [nothing] at got
    exact absurd rfl got
  · rw [result]
    refine ⟨paddrToPaged p, ?_, inv'⟩
    show p = BitVec.ofNat 32 (paddrToPaged p * pageLen)
    rw [← place, BitVec.ofNat_toNat, BitVec.setWidth_eq]

/-- It is given back. -/
theorem page_givenBack (inv : PagesInv mm kernel (⟨page, 1⟩ :: taken)) :
    PagesInv (releasePages mm (pageToPaddr page) 1).1 kernel taken := by
  obtain ⟨mm', released, inv'⟩ := inv.releasePages_spec mem_cons_self
  rw [show releasePages mm (pageToPaddr page) 1 = (mm', true) from released]
  rwa [erase_cons_head] at inv'

/-- The page of the pipe lies beside the heap. -/
theorem HeapInv.beside (inv : HeapInv kernel others slab live blocks)
    (pages : PagesInv mm kernel (⟨page, 1⟩ :: (others ++ slab.reserved))) :
    HeapInv kernel (⟨page, 1⟩ :: others) { slab with mm } live blocks :=
  ⟨⟨inv.list.forward, inv.list.backward, inv.list.ptr, inv.list.apart, inv.list.owned⟩,
    ⟨inv.live.taken, inv.live.once⟩, pages⟩

/-- No page is free, or only one and no block of the heap; or the heap has a block, and there is no
inode; or there is all that the pipe needs. -/
def PipeUndoable (s : PipeState) (who : ProcNr) : Prop :=
  (getFreePages s.slab.mm 1#32 gfpHigh).2 = 0#32 ∨
  (s.slab.hasRoom filpPipeLen = false ∧
    (getFreePages (getFreePages s.slab.mm 1#32 gfpHigh).1 1#32 gfpHigh).2 = 0#32) ∨
  -- an inode whose number is not positive counts as free; `next_inum` starts at 2
  (s.slab.hasRoom filpPipeLen = true ∧ (¬ InodeFree s.files ∨ s.files.nextInum ≤ 0)) ∨
  (InodeFree s.files ∧ TwoRoom s.files who)

/-- **What is left after the memory is there**; `P` says that the pages are. -/
theorem sysPipeFrom_undone {P : Prop} (who : ProcNr) (files : Files) (slab₀ slab : Slab) (ptr : Word)
    (pipe : Nat) (pages : (∀ i < pagesNr, bitOn (releasePages slab.mm ptr 1).1.memMap i =
      bitOn slab₀.mm.memMap i) ↔ P) :
    (∀ ret s', sysPipeFrom who files slab ptr pipe = some (ret, s') → ret < 0 →
      PipeUndone ⟨files, slab₀⟩ s') ↔
      (P ∧ (¬ InodeFree files ∨ files.nextInum ≤ 0)) ∨ (InodeFree files ∧ TwoRoom files who) := by
  have given : (givePage (kfree slab pipe) ptr).mm = (releasePages slab.mm ptr 1).1 := by
    rw [givePage, kfree_mm]
  have fails {ret : Int} {w' : Files} (negative : ret < 0)
    (ran : sysPipe who true true files = some (ret, w')) :
      (∀ ret s', sysPipeFrom who files slab ptr pipe = some (ret, s') → ret < 0 →
        PipeUndone ⟨files, slab₀⟩ s') ↔
          PipeUndone ⟨files, slab₀⟩ ⟨w', givePage (kfree slab pipe) ptr⟩ := by
    have whole :
        sysPipeFrom who files slab ptr pipe = some (ret, ⟨w', givePage (kfree slab pipe) ptr⟩) := by
      rw [sysPipeFrom, ran]
      exact if_neg (ne_of_lt negative)
    rw [whole]
    refine ⟨fun undone => undone ret _ rfl negative, fun undone ret' s' same _ => ?_⟩
    cases same
    exact undone
  rcases sysPipe_spec files who with ⟨none, ran⟩ | ⟨free, two, w', ran⟩ |
    ⟨few, ret, w', inode, negative, ran, fds, filps, low, nums⟩
  · rw [fails (by decide) ran]
    constructor
    · intro undone
      exact .inl ⟨pages.mp fun i inside => given ▸ undone.pages i inside, .inl none⟩
    · rintro (⟨same, -⟩ | ⟨free, -⟩)
      · exact ⟨fun _ => rfl, fun _ => Iff.rfl, fun _ => Iff.rfl,
          fun i inside => given.symm ▸ pages.mpr same i inside⟩
      · exact absurd free none
  · refine iff_of_true (fun ret s' same negative => ?_) (.inr ⟨free, two⟩)
    have whole : sysPipeFrom who files slab ptr pipe = some (ok, ⟨w', slab⟩) := by
      rw [sysPipeFrom, ran]
      rfl
    rw [whole] at same
    cases same
    exact absurd negative (by decide)
  · rw [fails negative ran]
    constructor
    · intro undone
      have positive := (undone.inodes inode).mpr low
      rw [nums, if_pos rfl] at positive
      exact .inl ⟨pages.mp fun i inside => given ▸ undone.pages i inside, .inr positive⟩
    · rintro (⟨same, none | last⟩ | ⟨-, two⟩)
      · exact absurd ⟨inode, low⟩ none
      · refine ⟨fds, filps, fun i => ?_, fun i inside => given.symm ▸ pages.mpr same i inside⟩
        rw [nums]
        by_cases taken : i = inode
        · rw [if_pos taken, taken]
          exact iff_of_true last low
        · rw [if_neg taken]
      · exact absurd two few

/-- A page of the heap stays when the page of the pipe is given back. -/
theorem page_stays {next : Nat} (inv : PagesInv mm kernel taken)
    (grown : PagesInv mm' kernel (⟨next, 1⟩ :: ⟨page, 1⟩ :: taken)) :
    ¬ ∀ i < pagesNr, bitOn (releasePages mm' (pageToPaddr page) 1).1.memMap i = bitOn mm.memMap i := by
  intro same
  have inv' := page_givenBack (grown.perm (List.Perm.swap _ _ _))
  obtain ⟨inside, before, after⟩ := inv.fresh inv' (i := next) ⟨le_rfl, Nat.lt_succ_self next⟩
  rw [same next inside, before] at after
  cases after

/-- **A `pipe` that fails leaves no trace** if and only if it is undoable. -/
theorem pipe_atomic_iff (inv : HeapInv kernel others s.slab live blocks) (who : ProcNr) :
    PipeAtomic s who ↔ PipeUndoable s who := by
  unfold PipeAtomic PipeUndoable sysPipeWhole
  dsimp only
  by_cases null : (getFreePages s.slab.mm 1#32 gfpHigh).2 = 0#32
  · refine iff_of_true (fun ret s' ran _ => ?_) (.inl null)
    rw [if_pos null] at ran
    cases ran
    have same : (getFreePages s.slab.mm 1#32 gfpHigh).1 = s.slab.mm :=
      inv.pages.getFreePages_null (Prod.ext rfl null)
    exact ⟨fun _ => rfl, fun _ => Iff.rfl, fun _ => Iff.rfl, fun i _ => by dsimp only; rw [same]⟩
  · obtain ⟨page, place, pages⟩ := page_taken inv.pages null
    have beside := HeapInv.beside inv pages
    have nonnull : pageToPaddr page ≠ 0#32 := place ▸ null
    rw [if_neg null, place]
    cases room : s.slab.hasRoom filpPipeLen with
    | true =>
      obtain ⟨slab, p, allocated, mm⟩ := kmalloc_room beside room
      rw [allocated]
      have back : ∀ i < pagesNr, bitOn (releasePages slab.mm (pageToPaddr page) 1).1.memMap i =
          bitOn s.slab.mm.memMap i := by
        rw [mm]
        exact inv.pages.bits_eq (page_givenBack pages)
      refine (sysPipeFrom_undone who s.files s.slab slab (pageToPaddr page) p
        (iff_true_intro back)).trans ?_
      simp only [nonnull, true_and, false_or, Bool.true_eq_false, false_and]
    | false =>
      obtain ⟨first, allocated⟩ := kmalloc_full beside room
      obtain ⟨isNull, mm⟩ :=
        growHeap_mm { s.slab with mm := (getFreePages s.slab.mm 1#32 gfpHigh).1 } first
        (show align1kHb (atLeast (align4 filpPipeLen)) = 1024#32 by decide)
      rw [allocated]
      cases grown : growHeap { s.slab with mm := (getFreePages s.slab.mm 1#32 gfpHigh).1 } first
          (align4 filpPipeLen) with
      | mk slab result =>
        rw [grown] at isNull mm
        dsimp only at isNull mm
        cases result with
        | none =>
          have second := isNull.mp rfl
          have kept : slab.mm = (getFreePages s.slab.mm 1#32 gfpHigh).1 :=
            mm.trans (pages.getFreePages_null (Prod.ext rfl second))
          refine iff_of_true (fun ret s' ran _ => ?_) (.inr (.inl ⟨rfl, second⟩))
          cases ran
          refine ⟨fun _ => rfl, fun _ => Iff.rfl, fun _ => Iff.rfl, ?_⟩
          show ∀ i < pagesNr, bitOn (releasePages slab.mm (pageToPaddr page) 1).1.memMap i = _
          rw [kept]
          exact inv.pages.bits_eq (page_givenBack pages)
        | some p =>
          have second : (getFreePages (getFreePages s.slab.mm 1#32 gfpHigh).1 1#32 gfpHigh).2 ≠ 0#32 :=
            fun zero => some_ne_none p (isNull.mpr zero)
          obtain ⟨next, -, grew⟩ := page_taken beside.pages second
          rw [← mm] at grew
          refine (sysPipeFrom_undone who s.files s.slab slab (pageToPaddr page) p
            (iff_false_intro (page_stays inv.pages grew))).trans ?_
          simp only [nonnull, second, true_and, false_or, Bool.false_eq_true, false_and]

/-- A kernel that has started, with this many descriptors of process 1 in use. -/
def pipeState (used : Nat) : PipeState :=
  ⟨{ bootFiles (imageVolume plainLayout) with
      procs := fun p => { noProc with
        inUse := decide (p ≤ 2), fpFilp :=
          fun fd => if p = 1 ∧ fd.val < used then bootFilps.head? else none } },
    (initHeap 2000#32).slab⟩

/-- … with one page left. -/
def lastPage : PipeState := { pipeState 3 with slab := (initHeap 128000#32).slab }

/-- There is a page for the buffer and none for the heap: the call fails, and the page is given back. -/
theorem pipeState_atomic :
    (sysPipeWhole 1 lastPage).map Prod.fst = some enomem ∧ PipeAtomic lastPage 1 := by
  have inv := initHeap_inv (show (128000#32 : Word).toNat < 127 * 1024 by decide)
  exact ⟨by decide +kernel,
    (pipe_atomic_iff (s := lastPage) inv 1).mpr (.inr (.inl (by decide +kernel)))⟩

/-- There is one descriptor left: the inode is given up with its new number. -/
theorem pipe_keeps_inode : ∃ s', sysPipeWhole 1 (pipeState 15) = some (emfile, s') ∧
    ((pipeState 15).files.vol.inodeTable 0).iNum = 0 ∧ (s'.files.vol.inodeTable 0).iNum = 2 ∧
    ¬ PipeAtomic (pipeState 15) 1 := by
  obtain ⟨⟨ret, s'⟩, ran, failed, stays⟩ := exists_of_any (show (sysPipeWhole 1 (pipeState 15)).any
    (fun r => r.1 = emfile ∧ (r.2.files.vol.inodeTable 0).iNum = 2) = true by decide +kernel)
  obtain rfl : ret = emfile := failed
  have free : ((pipeState 15).files.vol.inodeTable 0).iNum = 0 := by decide
  refine ⟨s', ran, free, stays, fun atomic => ?_⟩
  have same := (atomic emfile s' ran (by decide)).inodes 0
  rw [free, show (s'.files.vol.inodeTable 0).iNum = 2 from stays] at same
  exact absurd (same.mpr le_rfl) (by decide)

end PipeMemory

end Winix.Fs
