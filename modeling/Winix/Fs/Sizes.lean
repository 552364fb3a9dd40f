/-
**The size of a file.**

`root_fs_write` adds what it has written to `i_size`, wherever the position was, and
`truncate_inode` gives the blocks back and leaves the sizes.

* `writeBlocks_came`: a write adds what it returns to the size and to the position;
* `sysOpen_sizes`: an open with `O_TRUNC` leaves the sizes of a file that was there, and a new file
  has none;
* `size_tracks_iff`: so when the size is right.
-/

import Winix.Fs.Roundtrip

namespace Winix.Fs

open Kernel Lib Function BitVec Option Prog

/-! ### What leaves the inodes alone -/

section Inodes

variable {τ : Type} {view : Volume → τ}
variable {id : Option DevId} {buf : BufNr}

theorem readIno_keeps {ino : InodeNr} : Keeps view (readIno ino) := Keeps.get.bind fun _ => .pure

theorem derefSb_keeps : Keeps view (derefSb id) := Keeps.get.bind fun _ => .ofOption

theorem readBlock_keeps : Keeps view (readBlock buf) := Keeps.get.bind fun _ => .pure

theorem derefBlock_inodes {bnr : Word} : Keeps Volume.inodeTable (derefBlock bnr id) := by
  refine Keeps.bind (fun v tbuf v' ran => ?_) fun _ => .ofOption
  obtain ⟨dev, -, ran⟩ := bind_eq_some_iff.mp ran
  obtain ⟨⟨tbuf', cache⟩, -, ran⟩ := bind_eq_some_iff.mp ran
  cases ran
  rfl

theorem putBlock_inodes : Keeps Volume.inodeTable (putBlock buf) := by
  intro v _ v' ran
  obtain ⟨cache, -, ⟨⟩⟩ := map_eq_some_iff.mp ran
  rfl

theorem putBlockDirt_inodes : Keeps Volume.inodeTable (putBlockDirt buf) := by
  intro v _ v' ran
  obtain ⟨cache, -, ⟨⟩⟩ := map_eq_some_iff.mp ran
  rfl

theorem changeBlock_inodes {change : (Nat → Word) → Nat → Word} :
    Keeps Volume.inodeTable (changeBlock buf change) := Keeps.modify fun _ => rfl

theorem releaseBlock_inodes {bnr : Word} : Keeps Volume.inodeTable (releaseBlock bnr id) := by
  refine derefSb_keeps.bind fun sb => .ite .pure ?_
  refine derefBlock_inodes.bind fun block => changeBlock_inodes.bind fun _ =>
    putBlockDirt_inodes.bind fun _ => ?_
  refine derefBlock_inodes.bind fun bmap => changeBlock_inodes.bind fun _ => ?_
  exact Keeps.bind (Keeps.modify fun _ => rfl) fun _ => putBlock_inodes.bind fun _ => .pure

theorem searchImap_inodes {imapEnd : Nat} {fuel here bnr : Nat} {imap : BufNr} :
    Keeps Volume.inodeTable (searchImap imapEnd id fuel here bnr imap) := by
  induction fuel generalizing here bnr imap with
  | zero => exact .pure
  | succ fuel ih =>
    refine .ite .pure (readBlock_keeps.bind fun map => ?_)
    split
    · exact .pure
    · exact putBlock_inodes.bind fun _ => derefBlock_inodes.bind fun _ => ih

end Inodes

/-! ### What changes the zones of one inode -/

section Zones

variable {τ : Type} (view : (InodeNr → Inode) → τ) {ino : InodeNr}

theorem Keeps.ofInodes {α : Type} {x : VolM α} (kept : Keeps Volume.inodeTable x) :
    Keeps (fun v => view v.inodeTable) x := kept.coarsen view fun _ => rfl

section

variable (total : ∀ table size, view (update table ino { table ino with iTotalSize := size }) =
  view table)
include total

/-- `alloc_block` adds to the allocated size of the inode. -/
theorem allocBlock_keeps {id : Option DevId} :
    Keeps (fun v => view v.inodeTable) (allocBlock ino id) := by
  refine derefSb_keeps.bind fun sb => (Keeps.ofInodes view derefBlock_inodes).bind fun bmap => ?_
  generalize sb.sBlockmapnr = bnr
  induction sb.sBlockmapSize.toNat / blockSize generalizing bnr bmap with
  | zero => exact (Keeps.ofInodes view putBlock_inodes).bind fun _ => .pure
  | succ left ih =>
    refine readBlock_keeps.bind fun map => ?_
    split
    · refine (Keeps.ofInodes view changeBlock_inodes).bind fun _ =>
        Keeps.bind (Keeps.modify fun _ => rfl) fun _ => ?_
      refine Keeps.bind (Keeps.modify fun v => total v.inodeTable _) fun _ => ?_
      exact (Keeps.ofInodes view putBlockDirt_inodes).bind fun _ => .pure
    · refine (Keeps.ofInodes view putBlock_inodes).bind fun _ => ?_
      exact (Keeps.ofInodes view derefBlock_inodes).bind fun _ => ih _ _

theorem writeZone_keeps {index : Nat}
    (zones : ∀ table zone, view (update table ino { table ino with iZone := zone }) = view table) :
    Keeps (fun v => view v.inodeTable) (writeZone ino index) := by
  refine readIno_keeps.bind fun inode => (Keeps.ite .pure .fault).bind fun bnr => .ite .pure
    ((allocBlock_keeps view total).bind fun bnr => .ite ?_ .pure)
  exact Keeps.bind (Keeps.modify fun v => zones v.inodeTable _) fun _ => .pure

end

end Zones

/-! ### A write -/

/-- The inode without its zones and its allocated size. -/
def Inode.bare (i : Inode) : Inode := { i with iZone := fun _ => 0#32, iTotalSize := 0#32 }

section Write

variable {w w' : World} {who : ProcNr} {f : FilpNr} {ino : InodeNr} {left index : Nat}
  {off count data ret : Word}

theorem writeZone_bare : Keeps (fun v => (v.inodeTable ino).bare) (writeZone ino index) := by
  refine writeZone_keeps (fun table => (table ino).bare) (fun table size => ?_) fun table zone => ?_
  · rw [update_self]
    rfl
  · rw [update_self]
    rfl

theorem onDisks_came {α : Type} {x : VolM α} {a : α} (ran : (onDisks x).erase w = some (a, w')) :
    ∃ vol, x w.files.vol = some (a, vol) ∧ w' = { w with files := { w.files with vol } } := by
  obtain ⟨⟨a', files⟩, outer, same⟩ := map_eq_some_iff.mp ran
  obtain ⟨⟨a'', vol⟩, inner, same'⟩ := map_eq_some_iff.mp outer
  cases same'
  cases same
  exact ⟨vol, inner, rfl⟩

theorem onDisks_inodes {α : Type} {x : VolM α} {a : α} (kept : Keeps Volume.inodeTable x)
    (ran : (onDisks x).erase w = some (a, w')) : w'.files.vol.inodeTable = w.files.vol.inodeTable := by
  obtain ⟨vol, came, rfl⟩ := onDisks_came ran
  exact kept _ _ _ came

theorem writeTo_came {filp : Filp} {bnr len r : Word}
    (ran : (writeTo who filp data bnr off len).erase w = some (r, w')) :
    r.toNat ≤ len.toNat ∧ w'.files.vol.inodeTable = w.files.vol.inodeTable := by
  unfold writeTo at ran
  split at ran
  · obtain ⟨w₁, w₂, read, ran⟩ := Logged.bind_erase_eq_some.mp ran
    cases read
    obtain ⟨words, w₃, read, ran⟩ := Logged.bind_erase_eq_some.mp ran
    cases read
    obtain ⟨_, w₄, wrote, ran⟩ := Logged.bind_erase_eq_some.mp ran
    cases ran
    refine ⟨?_, onDisks_inodes (Keeps.modify ?_) wrote⟩
    swap
    · exact fun _ => rfl
    refine Nat.le_trans (Nat.mod_le _ _) ?_
    unfold blkDevIoWrite onDisk
    split
    · exact Nat.zero_le _
    · have most := Nat.mod_le ((off + bnr * BitVec.ofNat 32 blockSize).toNat + len.toNat) wordSize
      split <;> omega
  · obtain ⟨buffer, w₁, got, ran⟩ := Logged.bind_erase_eq_some.mp ran
    obtain ⟨words, w₂, read, ran⟩ := Logged.bind_erase_eq_some.mp ran
    cases read
    obtain ⟨_, w₃, changed, ran⟩ := Logged.bind_erase_eq_some.mp ran
    obtain ⟨_, w₄, put, ran⟩ := Logged.bind_erase_eq_some.mp ran
    cases ran
    refine ⟨Nat.le_refl _, (onDisks_inodes putBlockDirt_inodes put).trans ?_⟩
    exact (onDisks_inodes changeBlock_inodes changed).trans (onDisks_inodes derefBlock_inodes got)

/-- **A write that has come back** has added some number of words to the size, and has returned it,
or an error. -/
theorem writeBlocks_came (small : off.toNat < blockSize) {result : Int}
    (ran : (writeBlocks who f ino left index off count data ret).erase w = some (result, w')) :
    ∃ n, n ≤ count.toNat ∧ n ≤ left * blockSize - off.toNat ∧
      (w'.files.vol.inodeTable ino).bare =
        { (w.files.vol.inodeTable ino).bare with iSize :=
          (w.files.vol.inodeTable ino).iSize + BitVec.ofNat 32 n } ∧
      (result = enospc ∨ result = (ret + BitVec.ofNat 32 n).toInt) := by
  have same (i : Inode) : i.bare = { i.bare with iSize := i.iSize + BitVec.ofNat 32 0 } := by
    rw [BitVec.add_zero]
    rfl
  induction left generalizing w index off count data ret with
  | zero =>
    cases ran
    exact ⟨0, Nat.zero_le _, Nat.zero_le _, same _, Or.inr (by rw [BitVec.add_zero])⟩
  | succ left ih =>
    obtain ⟨bnr, w₁, zone, ran⟩ := Logged.bind_erase_eq_some.mp ran
    obtain ⟨vol, came, rfl⟩ := onDisks_came zone
    have bare : (vol.inodeTable ino).bare = (w.files.vol.inodeTable ino).bare :=
      writeZone_bare _ _ _ came
    obtain ⟨filp, w₂, read, ran⟩ := Logged.bind_erase_eq_some.mp ran
    cases read
    split at ran
    · cases ran
      refine ⟨0, Nat.zero_le _, Nat.zero_le _, bare.trans (same _), Or.inl rfl⟩
    obtain ⟨r, w₂, wrote, ran⟩ := Logged.bind_erase_eq_some.mp ran
    obtain ⟨most, inodes⟩ := writeTo_came wrote
    have len := writeLen_toNat count small
    split at ran
    · cases ran
      refine ⟨0, Nat.zero_le _, Nat.zero_le _, ?_, Or.inr (by rw [BitVec.add_zero])⟩
      rw [inodes]
      exact bare.trans (same _)
    obtain ⟨_, w₃, moved, ran⟩ := Logged.bind_erase_eq_some.mp ran
    cases moved
    obtain ⟨_, w₄, grown, ran⟩ := Logged.bind_erase_eq_some.mp ran
    obtain ⟨vol', came', rfl⟩ := onDisks_came grown
    cases came'
    obtain ⟨n, few, fits, after, back⟩ := ih (by decide) ran
    have fewer : (count - writeLen off count).toNat = count.toNat - (writeLen off count).toNat :=
      toNat_sub_of_le (le_def.mpr (by omega))
    refine ⟨r.toNat + n, by omega, ?_, ?_, ?_⟩
    · rw [Nat.succ_mul]
      omega
    · have size : (vol.inodeTable ino).iSize = (w.files.vol.inodeTable ino).iSize :=
        show (vol.inodeTable ino).bare.iSize = (w.files.vol.inodeTable ino).bare.iSize by rw [bare]
      have now : (update w₂.files.vol.inodeTable ino { w₂.files.vol.inodeTable ino with
          iSize := (w₂.files.vol.inodeTable ino).iSize + r }) ino = { vol.inodeTable ino with
            iSize := (vol.inodeTable ino).iSize + r } := by
        rw [update_self, inodes]
      refine after.trans ?_
      rw [← bare, ← size, ofNat_add, ofNat_toNat, setWidth_eq, ← add_assoc]
      exact congrArg (fun i : Inode => { i.bare with iSize := i.iSize + BitVec.ofNat 32 n }) now
    · rw [ofNat_add, ofNat_toNat, setWidth_eq, ← add_assoc]
      exact back

/-- **The whole write.** -/
theorem rootFsWrite_came (inode : (w.files.fdTable f).filpIno = some ino) {result : Int}
    (ran : (rootFsWrite who f data count (w.files.fdTable f).filpPos).erase w = some (result, w')) :
    ∃ n, n ≤ count.toNat ∧
      n ≤ blocksTo (w.files.fdTable f).filpPos (w.files.fdTable f).filpPos count * blockSize -
        (w.files.fdTable f).filpPos.toNat % blockSize ∧
      (w'.files.vol.inodeTable ino).bare =
        { (w.files.vol.inodeTable ino).bare with iSize :=
          (w.files.vol.inodeTable ino).iSize + BitVec.ofNat 32 n } ∧
      (result = enospc ∨ result = (BitVec.ofNat 32 n).toInt) := by
  obtain ⟨filp, w₁, read, rest⟩ := Logged.bind_erase_eq_some.mp ran
  cases read
  obtain ⟨ino', w₂, found, blocks⟩ := Logged.bind_erase_eq_some.mp rest
  obtain ⟨same, rfl⟩ := ofOption_eq_some.mp found
  obtain rfl : ino' = ino := Option.some.inj (same.symm.trans inode)
  obtain ⟨n, few, fits, bare, back⟩ := writeBlocks_came
    (by rw [offset_small]; exact Nat.mod_lt _ (by decide)) blocks
  rw [offset_small] at fits
  rw [BitVec.zero_add] at back
  exact ⟨n, few, fits, bare, back⟩

end Write

/-- The size is what it was, or the end of what has been written. -/
def SizeTracks (w : World) (f : FilpNr) (ino : InodeNr) (r : Int) (w' : World) : Prop :=
  ((w'.files.vol.inodeTable ino).iSize.toNat : Int) =
    max ((w.files.vol.inodeTable ino).iSize.toNat : Int) ((w.files.fdTable f).filpPos.toNat + r)

/-- **The size is right** exactly after a write at the end. -/
theorem sizeTracks_iff {w w' : World} {who : ProcNr} {f : FilpNr} {ino : InodeNr}
    {data count : Word} {r : Int}
    (inode : (w.files.fdTable f).filpIno = some ino)
    (room : (w.files.fdTable f).filpPos.toNat + count.toNat < 2 ^ 32 ∨
      (w.files.fdTable f).filpPos.toNat < nrTzones * blockSize)
    (ran : (rootFsWrite who f data count (w.files.fdTable f).filpPos).erase w = some (r, w'))
    (some : 0 < r) :
    SizeTracks w f ino r w' ↔ (w.files.fdTable f).filpPos = (w.files.vol.inodeTable ino).iSize := by
  obtain ⟨n, few, fits, bare, back⟩ := rootFsWrite_came inode ran
  have size :
      (w'.files.vol.inodeTable ino).iSize = (w.files.vol.inodeTable ino).iSize + BitVec.ofNat 32 n :=
    show (w'.files.vol.inodeTable ino).bare.iSize = _ by rw [bare]
  have bound := count.isLt
  obtain rfl | positive := back
  · exact absurd some (by decide)
  have number : r = n := by
    rw [positive, toInt_ofNat', Int.bmod_def] at some
    rw [positive, toInt_ofNat', Int.bmod_def]
    split at some <;> split <;> omega
  have sum : (w.files.fdTable f).filpPos.toNat + n < 2 ^ 32 := by
    obtain low | low := room
    · omega
    · unfold blocksTo nrTzones blockSize at *
      rw [toNat_add] at fits
      omega
  rw [SizeTracks, size, number, toNat_add, toNat_ofNat, ← toNat_inj]
  have last := (w.files.vol.inodeTable ino).iSize.isLt
  omega

/-! ### An open -/

/-- The size of an inode and that of its blocks. -/
def Inode.sizes (i : Inode) : Word × Word := (i.iSize, i.iTotalSize)

/-- The sizes of this inode. -/
abbrev Volume.sizesOf (ino : InodeNr) (v : Volume) : Word × Word := (v.inodeTable ino).sizes

section Open

variable {ino other dir : InodeNr} {w w' : Files} {who : ProcNr}
variable {owner : Owner} {inode : InodeNr} {eaten : Eaten}

theorem Keeps.ofTable {α : Type} {x : VolM α} (kept : Keeps Volume.inodeTable x) :
    Keeps (Volume.sizesOf ino) x := kept.coarsen (fun table => (table ino).sizes) fun _ => rfl

theorem sizes_update {table : InodeNr → Inode} {i : Inode} (same : i.sizes = (table other).sizes) :
    (update table other i ino).sizes = (table ino).sizes := by
  by_cases here : ino = other
  · rw [here, update_self, same]
  · rw [update_of_ne here]

theorem updateInode_sizes {change : Inode → Inode} (same : ∀ i, (change i).sizes = i.sizes) :
    Keeps (Volume.sizesOf ino) (updateInode other change) :=
  Keeps.modify fun _ => sizes_update (same _)

theorem truncateInode_sizes : Keeps (Volume.sizesOf ino) (truncateInode other) := by
  unfold truncateInode
  induction List.range nrTzones with
  | nil => exact .pure
  | cons i rest ih =>
    refine readIno_keeps.bind fun inode => .ite ?_ ih
    refine (Keeps.ofTable releaseBlock_inodes).bind fun _ => ?_
    exact Keeps.bind (updateInode_sizes fun _ => rfl) fun _ => ih

theorem putInode_sizes {inode : Option InodeNr} {isDirty : Bool} :
    Keeps (Volume.sizesOf ino) (putInode inode isDirty) := by
  cases inode with
  | none => exact .pure
  | some inode =>
    refine Keeps.bind (updateInode_sizes fun _ => rfl)
      fun _ => .ite .pure (readIno_keeps.bind fun i => ?_)
    refine derefSb_keeps.bind fun sb => (Keeps.ofTable derefBlock_inodes).bind fun buffer => ?_
    exact (Keeps.ofTable changeBlock_inodes).bind fun _ =>
      (Keeps.ofTable putBlockDirt_inodes).bind fun _ => .pure

theorem addInodeToDirectory_sizes {string : List Word} (apart : ino ≠ dir) :
    Keeps (Volume.sizesOf ino) (addInodeToDirectory owner dir inode string) := by
  have others (table : InodeNr → Inode) (i : Inode) :
      (update table dir i ino).sizes = (table ino).sizes := by
    rw [update_of_ne apart]
  refine readIno_keeps.bind fun d => .ite .pure (.ite .pure (.ite .pure ?_))
  induction List.range nrTzones with
  | nil => exact .pure
  | cons i rest ih =>
    have grown : Keeps (Volume.sizesOf ino) (growZone dir i) := by
      refine readIno_keeps.bind fun d => .ite .pure ?_
      refine (allocBlock_keeps (fun table => (table ino).sizes) fun table _ => others table _).bind
        fun bnr => ?_
      exact Keeps.bind (Keeps.modify fun v => others v.inodeTable _) fun _ => .pure
    refine grown.bind fun bnr => readIno_keeps.bind fun d => ?_
    refine (Keeps.ofTable derefBlock_inodes).bind fun buf => Keeps.get.bind fun v => ?_
    split
    · refine readIno_keeps.bind fun target => Keeps.ofOption.bind fun dev => .ite .fault ?_
      refine (Keeps.ofTable changeBlock_inodes).bind fun _ => ?_
      refine Keeps.bind (updateInode_sizes fun _ => rfl) fun _ => ?_
      exact (Keeps.ofTable putBlockDirt_inodes).bind fun _ => .pure
    · exact (Keeps.ofTable putBlock_inodes).bind fun _ => ih

theorem addInodeToDirectory_result {string : List Word} :
    Triple (fun _ => True) (addInodeToDirectory owner dir inode string) fun ret _ => ret ≤ 0 := by
  have any {α : Type} {x : VolM α} : Triple (fun _ => True) x fun _ _ => True :=
    fun _ _ _ _ _ => trivial
  refine any.bind fun d => .ite (fun _ => .pure fun _ _ => by decide) fun _ => ?_
  refine .ite (fun _ => .pure fun _ _ => by decide)
    fun _ => .ite (fun _ => .pure fun _ _ => by decide) fun _ => ?_
  induction List.range nrTzones with
  | nil => exact .pure fun _ _ => by decide
  | cons i rest ih =>
    refine any.bind fun bnr => any.bind fun d => any.bind fun buf => any.bind fun v => ?_
    split
    · refine any.bind fun target => any.bind fun dev => .ite (fun _ => .fault) fun _ => ?_
      exact any.bind fun _ => any.bind fun _ => any.bind fun _ => .pure fun _ _ => by decide
    · exact any.bind fun _ => ih

theorem allocInode_new {parentdev inodev : Option DevId} {v v' : Volume}
    (ran : allocInode owner parentdev inodev v = some (some ino, v')) :
    v'.sizesOf ino = (0#32, 0#32) ∧ ∀ d, 0 < (v.inodeTable d).iNum → d ≠ ino := by
  obtain ⟨sb, v₁, got, ran⟩ := bind_eq_some.mp ran
  have same₁ : v₁.inodeTable = v.inodeTable := derefSb_keeps _ _ _ got
  obtain ⟨imap, v₂, got, ran⟩ := bind_eq_some.mp ran
  have same₂ := derefBlock_inodes _ _ _ got
  obtain ⟨⟨found, imap'⟩, v₃, searched, ran⟩ := bind_eq_some.mp ran
  have same₃ := searchImap_inodes _ _ _ searched
  cases found with
  | none =>
    obtain ⟨_, v₄, put, ran⟩ := bind_eq_some.mp ran
    cases ran
  | some inum =>
    obtain ⟨_, v₄, changed, ran⟩ := bind_eq_some.mp ran
    have same₄ := changeBlock_inodes _ _ _ changed
    obtain ⟨_, v₅, put, ran⟩ := bind_eq_some.mp ran
    have same₅ := putBlockDirt_inodes _ _ _ put
    obtain ⟨slot, v₆, free, ran⟩ := bind_eq_some.mp ran
    obtain ⟨w, v₇, get, free⟩ := bind_eq_some.mp free
    cases get
    have table : v₅.inodeTable = v.inodeTable := by rw [same₅, same₄, same₃, same₂, same₁]
    cases here : inodeSlots.find? fun i => (v₅.inodeTable i).iNum ≤ 0 with
    | none =>
      rw [here] at free
      cases free
      obtain ⟨_, _, null, _⟩ := bind_eq_some.mp ran
      cases null
    | some rep =>
      rw [here] at free
      obtain ⟨_, v₈, zeroed, free⟩ := bind_eq_some.mp free
      cases zeroed
      cases free
      obtain ⟨rep', v₉, found, ran⟩ := bind_eq_some.mp ran
      cases found
      obtain ⟨_, v₁₀, inited, ran⟩ := bind_eq_some.mp ran
      obtain ⟨_, v₁₁, owned, ran⟩ := bind_eq_some.mp ran
      obtain ⟨_, v₁₂, counted, ran⟩ := bind_eq_some.mp ran
      cases ran
      cases counted
      have kept : Volume.sizesOf ino v₁₁ = Volume.sizesOf ino v₁₀ := by
        refine updateInode_sizes ?_ _ _ _ owned
        exact fun _ => rfl
      have zero : Volume.sizesOf ino v₁₀ = (0#32, 0#32) := by
        cases inited
        rw [Volume.sizesOf, Volume.updateInode_same, Volume.updateInode_same]
        dsimp only
        split <;> rfl
      have free : (v₅.inodeTable ino).iNum ≤ 0 := by simpa using List.find?_some here
      refine ⟨kept.trans zero, fun d used same => ?_⟩
      rw [same, ← table] at used
      omega

theorem onVolume_sizes {α : Type} {x : VolM α} {a : α} (kept : Keeps (Volume.sizesOf ino) x)
    (ran : onVolume x w = some (a, w')) : w'.vol.sizesOf ino = w.vol.sizesOf ino := by
  obtain ⟨vol, came, rfl⟩ := onVolume_eq_some.mp ran
  exact kept _ _ _ came

/-- The inode that the path names; a file that is made has none yet. -/
def openTarget (eaten : Eaten) : Option InodeNr :=
  match eaten.retIno with
  | some inode => some inode
  | none => if eaten.string = [] then eaten.lastDir else none

/-- The inode that is opened has the sizes it had, or none if it is new. -/
def Sized (eaten : Eaten) (w : Files) (ino : InodeNr) (w' : Files) : Prop :=
  (openTarget eaten = some ino ∧ w'.vol.sizesOf ino = w.vol.sizesOf ino) ∨
    (openTarget eaten = none ∧ w'.vol.sizesOf ino = (0#32, 0#32))

theorem Sized.trans {w'' : Files} (sized : Sized eaten w ino w')
    (same : w''.vol.sizesOf ino = w'.vol.sizesOf ino) : Sized eaten w ino w'' := by
  unfold Sized
  rw [same]
  exact sized

/-- `_sys_open` fails, or finds or makes the inode. -/
theorem openInode_sizes {flags mode : Word} {dev : DevId} {result : Except Int (Option InodeNr)}
    (live : ∀ d, eaten.lastDir = some d → 0 < (w.vol.inodeTable d).iNum)
    (ran : openInode who flags mode dev eaten w = some (result, w')) :
    (∃ ret < 0, result = .error ret) ∨ ∃ inode, result = .ok inode ∧
      ∀ ino, (inode.orElse fun _ => eaten.lastDir) = some ino → Sized eaten w ino w' := by
  obtain ⟨p, w₁, read, ran⟩ := bind_eq_some.mp ran
  cases read
  cases named : eaten.retIno with
  | some found =>
    rw [named] at ran
    obtain ⟨i, w₂, read, ran⟩ := bind_eq_some.mp ran
    cases read
    split_ifs at ran <;> cases ran
    · exact .inl ⟨_, by decide, rfl⟩
    · exact .inl ⟨_, by decide, rfl⟩
    · refine .inr ⟨_, rfl, fun ino chosen => ?_⟩
      cases chosen
      exact Or.inl ⟨by rw [openTarget, named], rfl⟩
  | none =>
    rw [named] at ran
    dsimp only at ran
    split_ifs at ran with nameless
    · cases ran
      exact .inr ⟨_, rfl, fun ino chosen =>
        .inl ⟨by rw [openTarget, named]; exact (if_pos nameless).trans chosen, rfl⟩⟩
    · cases ran
      exact .inl ⟨_, by decide, rfl⟩
    obtain ⟨made, w₂, alloc, ran⟩ := bind_eq_some.mp ran
    cases made with
    | none =>
      cases ran
      exact .inl ⟨_, by decide, rfl⟩
    | some new =>
      obtain ⟨lastdir, w₃, found, ran⟩ := bind_eq_some.mp ran
      obtain ⟨last, rfl⟩ := ofOption_eq_some.mp found
      obtain ⟨ret, w₄, added, ran⟩ := bind_eq_some.mp ran
      split_ifs at ran with failed
      · obtain ⟨_, _, _, ran⟩ := bind_eq_some.mp ran
        cases ran
        obtain ⟨vol, came, rfl⟩ := onVolume_eq_some.mp added
        have most := addInodeToDirectory_result _ _ _ trivial came
        exact .inl ⟨ret, by omega, rfl⟩
      obtain ⟨_, w₅, mode, ran⟩ := bind_eq_some.mp ran
      cases ran
      refine .inr ⟨_, rfl, fun ino chosen => ?_⟩
      cases chosen
      obtain ⟨vol, came, rfl⟩ := onVolume_eq_some.mp alloc
      obtain ⟨zero, apart⟩ := allocInode_new came
      have dir :=
        onVolume_sizes (addInodeToDirectory_sizes (apart lastdir (live lastdir last)).symm) added
      have same : w'.vol.sizesOf new = w₄.vol.sizesOf new := by
        refine onVolume_sizes (updateInode_sizes ?_) mode
        exact fun _ => rfl
      refine Or.inr ⟨by rw [openTarget, named]; exact if_neg nameless, same.trans (dir.trans zero)⟩

theorem getFd_error {ret : Int} (ran : getFd who w = some (.error ret, w')) : ret < 0 := by
  rcases getFd_cases w who with ⟨ret, negative, got, -⟩ | ⟨fd, f, -, -, got⟩
  · rw [got] at ran
    cases ran
    exact negative
  · rw [got] at ran
    cases ran

theorem openFilp_sizes (ino : InodeNr) {flags : Word} {slot : Fd} {f : FilpNr} {fd : Int}
    (ran : openFilp who flags slot f inode w = some (fd, w')) :
    fd = slot.val ∧ (w'.procs who).fpFilp slot = some f ∧ (w'.fdTable f).filpIno = some inode ∧
      w'.vol.sizesOf ino = w.vol.sizesOf ino := by
  obtain ⟨_, w₁, truncated, ran⟩ := bind_eq_some.mp ran
  obtain ⟨_, w₂, inited, ran⟩ := bind_eq_some.mp ran
  obtain ⟨i, w₃, read, ran⟩ := bind_eq_some.mp ran
  obtain ⟨_, w₄, changed, ran⟩ := bind_eq_some.mp ran
  obtain ⟨_, w₅, set, ran⟩ := bind_eq_some.mp ran
  obtain ⟨_, w₆, device, ran⟩ := bind_eq_some.mp ran
  obtain ⟨-, rfl⟩ := ofOption_eq_some.mp device
  cases ran
  have sizes : w₁.vol.sizesOf ino = w.vol.sizesOf ino := by
    unfold truncateIf at truncated
    split_ifs at truncated
    · exact onVolume_sizes truncateInode_sizes truncated
    · cases truncated
      rfl
  have held : (w'.procs who).fpFilp slot = some f := by
    rw [setFd_proc set]
    exact update_self ..
  cases set
  cases changed
  cases read
  cases inited
  refine ⟨rfl, held, ?_, sizes⟩
  show (update (update w₁.fdTable f _) f _ f).filpIno = _
  rw [update_self]
  show ((update w₁.fdTable f _) f).filpIno = _
  rw [update_self]

/-- **An open leaves the sizes**, with `O_TRUNC`, too. -/
theorem sysOpen_sizes {path : List Word} {flags mode : Word} {fd : Int} {w₁ : Files}
    (resolved : eatPathOf who path w = some (eaten, w₁)) (found : eaten.ret = 0)
    (live : ∀ d, eaten.lastDir = some d → 0 < (w₁.vol.inodeTable d).iNum)
    (ran : sysOpen who path flags mode w = some (fd, w')) (opened : 0 ≤ fd) :
    ∃ slot f ino, fdOpened (w'.procs who) fd = some (slot, f) ∧ (w'.fdTable f).filpIno = some ino ∧
      Sized eaten w₁ ino w' := by
  have device : getDev rootDev = some .rootfs := by decide
  rw [sysOpen, sysOpenDev, device] at ran
  obtain ⟨eaten', w₁', ate, ran⟩ := bind_eq_some.mp ran
  obtain ⟨rfl, rfl⟩ := run_unique resolved ate
  rw [if_neg (not_not.mpr found)] at ran
  obtain ⟨ret, w₂, open', ran⟩ := bind_eq_some.mp ran
  obtain ⟨_, w₃, put, ran⟩ := bind_eq_some.mp ran
  cases ran
  obtain ⟨result, w₄, inode, rest⟩ := bind_eq_some.mp open'
  rcases openInode_sizes live inode with ⟨ret, negative, rfl⟩ | ⟨inode', rfl, sizes⟩
  · cases rest
    exact absurd negative (Int.not_lt.mpr opened)
  · obtain ⟨result, w₅, got, rest⟩ := bind_eq_some.mp rest
    cases result with
    | error ret =>
      cases rest
      exact absurd (getFd_error got) (Int.not_lt.mpr opened)
    | ok slot =>
      obtain ⟨ino, w₆, choice, rest⟩ := bind_eq_some.mp rest
      obtain ⟨chosen, rfl⟩ := ofOption_eq_some.mp choice
      have vol : w₅.vol = w₄.vol := by
        cases getFd_got got
        rfl
      obtain ⟨rfl, held, refers, kept⟩ := openFilp_sizes ino rest
      have last := onVolume_sizes (show Keeps (Volume.sizesOf ino) _ from putInode_sizes) put
      obtain ⟨vol', -, rfl⟩ := onVolume_eq_some.mp put
      refine ⟨slot.1, slot.2, ino, fdOpened_of_some held, refers, ?_⟩
      refine (sizes ino chosen).trans (last.trans (kept.trans ?_))
      rw [vol]

end Open

/-- The file behind the descriptor has no size. -/
def OpenedEmpty (w : Files) (who : ProcNr) (fd : Int) : Prop :=
  ∃ slot f ino, fdOpened (w.procs who) fd = some (slot, f) ∧ (w.fdTable f).filpIno = some ino ∧
    w.vol.sizesOf ino = (0#32, 0#32)

/-- The file that the path names had no size, if there was one. -/
def WasEmpty (w : Files) (eaten : Eaten) : Prop :=
  ∀ ino, openTarget eaten = some ino → w.vol.sizesOf ino = (0#32, 0#32)

/-- **The sizes are zero** exactly if they were, or the file is new. -/
theorem openedEmpty_iff {w w₁ w' : Files} {who : ProcNr} {path : List Word} {flags mode : Word}
    {fd : Int}
    {eaten : Eaten} (resolved : eatPathOf who path w = some (eaten, w₁)) (found : eaten.ret = 0)
    (live : ∀ d, eaten.lastDir = some d → 0 < (w₁.vol.inodeTable d).iNum)
    (ran : sysOpen who path flags mode w = some (fd, w')) (opened : 0 ≤ fd) :
    OpenedEmpty w' who fd ↔ WasEmpty w₁ eaten := by
  obtain ⟨slot, f, ino, held, refers, sized⟩ := sysOpen_sizes resolved found live ran opened
  constructor
  · rintro ⟨slot', f', ino', held', refers', zero⟩ target named
    obtain ⟨-, rfl⟩ := run_unique held held'
    obtain rfl := Option.some.inj (refers.symm.trans refers')
    obtain ⟨same, kept⟩ | ⟨new, -⟩ := sized
    · obtain rfl := Option.some.inj (same.symm.trans named)
      exact kept.symm.trans zero
    · rw [new] at named
      cases named
  · intro empty
    refine ⟨slot, f, ino, held, refers, ?_⟩
    obtain ⟨same, kept⟩ | ⟨-, zero⟩ := sized
    · exact kept.trans (empty ino same)
    · exact zero

/-- **The size of a file** is right after a write exactly if the write was at the end of the file;
after an open with `O_TRUNC` it is zero, with that of the blocks, exactly if it was, or if the file
is new. -/
theorem size_tracks_iff (who : ProcNr) :
    (∀ (w w' : World) (f : FilpNr) (ino : InodeNr) (data count : Word) (r : Int),
      (w.files.fdTable f).filpIno = some ino →
      ((w.files.fdTable f).filpPos.toNat + count.toNat < 2 ^ 32 ∨
        (w.files.fdTable f).filpPos.toNat < nrTzones * blockSize) →
      (rootFsWrite who f data count (w.files.fdTable f).filpPos).erase w = some (r, w') → 0 < r →
      (SizeTracks w f ino r w' ↔ (w.files.fdTable f).filpPos = (w.files.vol.inodeTable ino).iSize)) ∧
    ∀ (w w₁ w' : Files) (path : List Word) (flags mode : Word) (fd : Int) (eaten : Eaten),
      anyBit flags oTrunc = true → eatPathOf who path w = some (eaten, w₁) → eaten.ret = 0 →
      (∀ d, eaten.lastDir = some d → 0 < (w₁.vol.inodeTable d).iNum) →
      sysOpen who path flags mode w = some (fd, w') → 0 ≤ fd →
      (OpenedEmpty w' who fd ↔ WasEmpty w₁ eaten) :=
  ⟨fun _ _ _ _ _ _ _ inode room ran some => sizeTracks_iff inode room ran some,
    fun _ _ _ _ _ _ _ _ _ resolved found live ran opened =>
      openedEmpty_iff resolved found live ran opened⟩

/-- A kernel with a root directory that has no blocks yet. -/
def emptyRoot : Files :=
  let vol := imageVolume plainLayout
  let root := { loadedRoot with iZone := fun _ => 0#32, iSize := 0#32, iTotalSize := 0#32 }
  let files := bootFiles { vol with inodeTable := update vol.inodeTable rootSlot root }
  { files with procs := fun p => { files.procs p with dirs := ⟨some rootSlot, some rootSlot⟩ } }

/-- It is opened with `O_TRUNC`, and a new file is written to. -/
theorem new_file_sizes :
    (∃ fd w', sysOpen 1 [slash] oTrunc 0 emptyRoot = some (fd, w') ∧ OpenedEmpty w' 1 fd) ∧
    ∃ w', (rootFsWrite 1 fileFilp 4096#32 1000#32 0#32).erase newFile = some (1000, w') ∧
      SizeTracks newFile fileFilp fileSlot 1000 w' := by
  constructor
  · obtain ⟨⟨eaten, w₁⟩, resolved, found, target, live⟩ := exists_of_any (by decide +kernel :
      (eatPathOf 1 [slash] emptyRoot).any (fun p => decide (p.1.ret = 0 ∧
        (∀ ino, ino ∈ openTarget p.1 → p.2.vol.sizesOf ino = (0#32, 0#32)) ∧
        ∀ d, d ∈ p.1.lastDir → 0 < (p.2.vol.inodeTable d).iNum)) = true)
    obtain ⟨⟨fd, w'⟩, ran, opened⟩ := exists_of_any (by decide +kernel :
      (sysOpen 1 [slash] oTrunc 0 emptyRoot).any (fun p => decide (0 ≤ p.1)) = true)
    exact ⟨fd, w', ran,
      ((size_tracks_iff 1).2 _ w₁ w' [slash] _ 0 fd eaten (by decide) resolved found live ran
      opened).mpr target⟩
  · obtain ⟨v', array', log, ran, -⟩ :=
      rootFsWrite_run (w := newFile) (f := fileFilp) 1 newFile_new.backed
      newFile_room (Nat.le_refl _) rfl rfl 4096#32 1000#32 (by decide) rfl rfl
    refine ⟨_, congrArg Prod.snd ran, ?_⟩
    exact ((size_tracks_iff 1).1 newFile _ fileFilp fileSlot 4096#32 1000#32 1000 rfl
      (Or.inr (by decide))
      (congrArg Prod.snd ran) (by decide)).mpr rfl

/-- **Ten words and then the first of them again**: the size is eleven. -/
theorem overwrite_grows :
    ∃ w w', (rootFsWrite 1 fileFilp 4096#32 10#32 0#32).erase newFile = some (10, w) ∧
      (rootFsWrite 1 fileFilp 4096#32 1#32 0#32).erase (w.seek fileFilp 0#32) = some (1, w') ∧
      ¬ SizeTracks (w.seek fileFilp 0#32) fileFilp fileSlot 1 w' := by
  obtain ⟨v, array, log, ran, written⟩ :=
    rootFsWrite_run (w := newFile) (f := fileFilp) 1 newFile_new.backed
    newFile_room (Nat.le_refl _) rfl rfl 4096#32 10#32 (by decide) rfl rfl
  have filp : (((newFile.stored fileFilp v 10#32).seek fileFilp 0#32).files.fdTable fileFilp) =
      { newFile.files.fdTable fileFilp with filpPos := 0#32 } := by
    rw [seek_filp, stored_filp]
  obtain ⟨v', array', log', ran', written'⟩ := rootFsWrite_run
    (w := (newFile.stored fileFilp v 10#32).seek fileFilp 0#32)
    (f := fileFilp) 1 written.backed written.room
    (Nat.le_refl _) (by rw [filp]; rfl) (by rw [World.isDirect, filp]; rfl)
    4096#32 1#32 (by decide) (congrArg Filp.filpPos filp) (by rw [filp]; rfl)
  refine ⟨_, _, congrArg Prod.snd ran, congrArg Prod.snd ran', fun tracks => ?_⟩
  have first : (v.inodeTable fileSlot).iSize = 10#32 :=
    written.iSize.trans (by rw [length_wordsAt]; rfl)
  have second : (v'.inodeTable fileSlot).iSize = 11#32 := by
    refine written'.iSize.trans ?_
    rw [length_wordsAt]
    exact congrArg (· + 1#32) first
  have tracks :
      (((v'.inodeTable fileSlot).iSize.toNat : Int)) = max ((v.inodeTable fileSlot).iSize.toNat : Int)
    ((((newFile.stored fileFilp v 10#32).seek fileFilp 0#32).files.fdTable
      fileFilp).filpPos.toNat + 1) := tracks
  rw [first, second, filp] at tracks
  exact absurd tracks (by decide)

end Winix.Fs
