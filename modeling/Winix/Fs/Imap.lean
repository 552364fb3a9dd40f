/-
**Inode numbers.**

An inode is looked up in `inode_table` by its number, whatever its device; one that is not there is read
from the disk, if its bit in the inode map is on. `alloc_inode` takes the first free number of that map,
and `release_inode` is meant to give it back.

* **`gets_iff_canGet`**: when `get_inode` returns the inode asked for;
* `allocInode_ends`: without a free slot of `inode_table` a null pointer is followed;
* `Releasable.releaseInode`: `release_inode` clears a bit of the inode table, and never touches the
  inode map;
* **`inodeCall_right_iff`**: when an allocation is right; no release of an inode in use is.
-/

import Winix.Fs.Release
import Winix.Fs.Counts

namespace Winix.Fs

open Kernel Lib Function Option Prog

/-! ### The maps -/

/-- The block of the inode map. -/
def imapBlock : Nat := 2

/-- Bit 0 of the map is on, and some other bit is free. -/
def HasHole (words : List Word) : Prop :=
  bitIn words 0 = true ∧ ∃ n < blockSize * 32, bitIn words n = false

/-- What the two maps may hold: the block map has a free bit, and the inode map is this one. -/
def mapsAllow (map : Nat → Word) (b : Nat) (words : List Word) : Prop :=
  (b = mapBlock → HasHole words) ∧ (b = imapBlock → words = slice map 0 blockSize)

/-- A file system with this inode map. -/
structure Mapped (v : Volume) (map : Nat → Word) : Prop where
  formatted : Formatted v.rootSb
  size : v.cache.rootfsDiskSize = 51200
  idle : Idle (mapsAllow map) v.cache
  reserved : bitOn map 0 = true

section Search

variable {map other : Nat → Word}

theorem bitOn_of_slice (same : slice other 0 blockSize = slice map 0 blockSize) {n : Nat}
    (small : n < blockSize * 32) : bitOn other n = bitOn map n := by
  rw [← bitIn_slice small, ← bitIn_slice small, same]

theorem search_of_slice (same : slice other 0 blockSize = slice map 0 blockSize) :
    bitmapSearchFrom other blockSize 0 1 = bitmapSearchFrom map blockSize 0 1 := by
  rw [bitmapSearchFrom_one _ (by decide), bitmapSearchFrom_one _ (by decide)]
  exact List.find?_congr fun n member => by rw [bitOn_of_slice same (List.mem_range.mp member)]

theorem search_some {n : Nat} (found : bitmapSearchFrom map blockSize 0 1 = some n) :
    n < blockSize * 32 ∧ bitOn map n = false := by
  rw [bitmapSearchFrom_one _ (by decide)] at found
  exact ⟨List.mem_range.mp (List.mem_of_find?_eq_some found), by simpa using List.find?_some found⟩

theorem search_none (none : bitmapSearchFrom map blockSize 0 1 = none) {n : Nat}
    (small : n < blockSize * 32) : bitOn map n = true := by
  rw [bitmapSearchFrom_one _ (by decide)] at none
  simpa using List.find?_eq_none.mp none n (List.mem_range.mpr small)

/-- A map with a free bit but the first: the search finds a number. -/
theorem search_hole (hole : HasHole (slice map 0 blockSize)) :
    ∃ n, bitmapSearchFrom map blockSize 0 1 = some (n + 1) := by
  obtain ⟨first, n, small, free⟩ := hole
  rw [bitIn_slice (by decide)] at first
  rw [bitIn_slice small] at free
  cases found : bitmapSearchFrom map blockSize 0 1 with
  | none =>
    rw [search_none found small] at free
    cases free
  | some n =>
    cases n with
    | zero =>
      rw [(search_some found).2] at first
      cases first
    | succ n => exact ⟨n, rfl⟩

end Search

/-! ### Allocating -/

section Alloc

variable {v : Volume} {map : Nat → Word} {allowed : Nat → List Word → Prop} {imap : BufNr} {b n : Nat}

theorem getFreeInodeSlot_full (full : ∀ i, 0 < (v.inodeTable i).iNum) :
    getFreeInodeSlot v = some (none, v) := by
  have none : (inodeSlots.find? fun i => (v.inodeTable i).iNum ≤ 0) = none :=
    List.find?_eq_none.mpr fun i _ => by simpa using full i
  rw [getFreeInodeSlot, Prog.get_bind, none]
  rfl

/-- The end of `alloc_inode`, when the search has come to a number. -/
theorem allocInode_ends {v₁ v₂ : Volume} {first : BufNr} (who : Owner) (inodev : Option DevId)
    (formatted : Formatted v.rootSb)
    (got : derefBlock 2 (some .rootfs) v = some (first, v₁))
    (search : searchImap 3 (some .rootfs) (3 + 1) 2 0 first v₁ = some ((some n, imap), v₂))
    (held : Held allowed v₂.cache imap b) (positive : 1 ≤ b) :
    if ∃ i, (v₂.inodeTable i).iNum ≤ 0 then
      ∃ slot v', allocInode who (some .rootfs) inodev v = some (some slot, v') ∧
        (v'.inodeTable slot).iNum = n
    else allocInode who (some .rootfs) inodev v = none := by
  have last : v.rootSb.sInodemapnr.toNat + v.rootSb.sBlockmapSize.toNat / blockSize = 3 := by
    rw [formatted.inodemapnr, formatted.blockmapSize]
    rfl
  have start : v.rootSb.sInodemapnr.toNat = 2 := by
    rw [formatted.inodemapnr]
    rfl
  obtain ⟨c₃, put, -, -⟩ :=
    rewriteBlock_held held positive (fun words => bitmapSetBit words blockSize n)
    (fun _ => True) True.intro
  generalize allocated : allocInode who (some .rootfs) inodev v = result
  rw [allocInode, bind_run derefSb_run] at allocated
  dsimp only at allocated
  rw [last, start, formatted.inodemapnr, bind_run got, bind_run search] at allocated
  dsimp only at allocated
  rw [bind_run changeBlock_run, bind_run put] at allocated
  by_cases free : ∃ i, (v₂.inodeTable i).iNum ≤ 0
  · rw [if_pos free]
    obtain ⟨slot, cleared, -⟩ := getFreeInodeSlot_run (v := { v₂ with cache := c₃ }) free
    rw [bind_run cleared] at allocated
    obtain ⟨v₄, initialised, -, -, core, -⟩ := initInodeNonDisk_run
      (v := ({ v₂ with cache := c₃ } : Volume).updateInode slot fun _ => Inode.zero) slot n inodev
      (some v.rootSb)
    have number : (v₄.inodeTable slot).iNum = n := congrArg Prod.fst core
    rw [show Prog.ofOption (some slot) = pure slot from rfl, pure_bind, bind_run initialised,
      bind_run updateInode_run, modify_bind] at allocated
    refine ⟨slot, _, allocated.symm, ?_⟩
    dsimp only
    rw [Volume.updateInode_same]
    exact number
  · rw [if_neg free, ← allocated]
    push Not at free
    rw [bind_run (getFreeInodeSlot_full (v := { v₂ with cache := c₃ }) free)]
    rfl

/-- **The search of `alloc_inode`**: the first free number of the inode map, or if there is none a
number of the block map. -/
theorem Mapped.search (mapped : Mapped v map) :
    ∃ first v₁ n imap c₂ b, derefBlock 2 (some .rootfs) v = some (first, v₁) ∧
      searchImap 3 (some .rootfs) (3 + 1) 2 0 first v₁ = some ((some n, imap), { v with cache := c₂ }) ∧
      Held (mapsAllow map) c₂ imap b ∧ 1 ≤ b ∧
      (bitmapSearchFrom map blockSize 0 1 = some n ∨
        bitmapSearchFrom map blockSize 0 1 = none ∧ n < blockSize * 32) := by
  have inside : Inside v.cache (2 : Word).toNat := inside_of_lt mapped.size (by decide) (by decide)
  obtain ⟨first, c₁, got, held, took⟩ := derefBlock_idle mapped.idle inside
  have words : slice (c₁.bufTable first).block 0 blockSize = slice map 0 blockSize :=
    (held.words (by decide)).2 rfl
  have here := search_of_slice words
  cases found : bitmapSearchFrom map blockSize 0 1 with
  | some n =>
    rw [found] at here
    cases n with
    | zero =>
      have free := (search_some found).2
      rw [mapped.reserved] at free
      cases free
    | succ n =>
      refine ⟨first, _, n + 1, first, c₁, 2, got, ?_, held, by decide, .inl rfl⟩
      rw [searchImap, if_neg (by decide), bind_run readBlock_run, here]
      rfl
  | none =>
    -- the map is full: the search goes on in block 1, which is the block map
    rw [found] at here
    obtain ⟨c₂, put, idle₂, same⟩ := putBlock_held (v := { v with cache := c₁ }) held
    have size₂ : c₂.rootfsDiskSize = 51200 := same.size.trans (took.size.trans mapped.size)
    have inside₂ : Inside c₂ (BitVec.ofNat 32 (0 + 1)).toNat :=
      inside_of_lt size₂ (by decide) (by decide)
    obtain ⟨second, c₃, got₃, held₃, -⟩ := derefBlock_idle (v := { v with cache := c₂ }) idle₂ inside₂
    obtain ⟨n, there⟩ := search_hole ((held₃.words (by decide)).1 rfl)
    refine ⟨first, _, n + 1, second, c₃, 1, got, ?_, held₃, by decide,
      .inr ⟨rfl, (search_some there).1⟩⟩
    rw [searchImap, if_neg (by decide), bind_run readBlock_run, here]
    dsimp only
    rw [bind_run put, bind_run got₃, searchImap, if_neg (by decide), bind_run readBlock_run, there]
    rfl

end Alloc

/-! ### Looking up -/

section Lookup

variable {v : Volume} {allowed : Nat → List Word → Prop}

/-- The number is valid and its bit in the inode map is on. -/
def NumberInUse (v : Volume) (num : Int) : Bool :=
  isValidInodeNum v.rootSb num && bitIn (shown v.cache imapBlock) num.toNat

theorem isInodeInUse_number (num : Int) (formatted : Formatted v.rootSb)
    (size : v.cache.rootfsDiskSize = 51200) (idle : Idle allowed v.cache) :
    ∃ c', isInodeInUse num (some .rootfs) v = some (NumberInUse v num, { v with cache := c' }) ∧
      Idle allowed c' ∧ c'.rootfsDiskSize = 51200 := by
  rw [NumberInUse]
  by_cases valid : isValidInodeNum v.rootSb num = true
  · obtain ⟨positive, small⟩ := range_of_valid valid
    obtain ⟨i, c, c', ran, -, took, idle', size'⟩ := isInodeInUse_idle formatted.laid
      (inside_of_lt size (by decide) (by decide)) idle positive small
    refine ⟨c', ?_, idle', size'.trans size⟩
    have inside : num.toNat < blockSize * 32 := by
      simp only [nrInodes] at small
      unfold blockSize
      omega
    rw [ran, valid, Bool.true_and, ← bitIn_slice inside, took.words]
    rfl
  · rw [isInodeInUse, bind_run derefSb_run, Bool.eq_false_of_not_eq_true valid, Bool.not_false,
      if_pos rfl,
      Bool.false_and]
    exact ⟨v.cache, rfl, idle, size⟩

/-- `read_inode` with a free slot: it is cleared, and takes the inode if the number is in use. -/
theorem readInode_idle (num : Int) (formatted : Formatted v.rootSb)
    (size : v.cache.rootfsDiskSize = 51200)
    (idle : Idle allowed v.cache) (free : ∃ i, (v.inodeTable i).iNum ≤ 0) :
    ∃ slot v', (v.inodeTable slot).iNum ≤ 0 ∧ (∀ j, j ≠ slot → v'.inodeTable j = v.inodeTable j) ∧
      if NumberInUse v num then
        readInode num (some .rootfs) v = some ((ok, some slot), v') ∧
          (v'.inodeTable slot).iNum = num ∧ (v'.inodeTable slot).iDev = some .rootfs
      else readInode num (some .rootfs) v = some ((einval, none), v') ∧
        v'.inodeTable slot = Inode.zero := by
  obtain ⟨slot, cleared, wasFree⟩ := getFreeInodeSlot_run free
  obtain ⟨c₁, checked, idle₁, size₁⟩ :=
    isInodeInUse_number (v := v.updateInode slot fun _ => Inode.zero) num
    formatted size idle
  rw [show NumberInUse (v.updateInode slot fun _ => Inode.zero) num =
    NumberInUse v num from rfl] at checked
  by_cases inUse : NumberInUse v num = true
  · obtain ⟨positive, small⟩ := range_of_valid (Bool.and_eq_true_iff.mp inUse).1
    rw [inUse] at checked
    obtain ⟨i, c, v', -, read, core, others, -⟩ := readInode_cores formatted.laid positive small
      (inside_of_lt size₁ (by decide) (by decide)) idle₁ cleared checked
    refine ⟨slot, v', wasFree, others, ?_⟩
    rw [if_pos inUse]
    exact ⟨read, congrArg Prod.fst core, congrArg (fun core => core.2.1) core⟩
  · have others : ∀ j, j ≠ slot →
      (v.updateInode slot fun _ => Inode.zero).inodeTable j = v.inodeTable j :=
      fun j other => Volume.updateInode_of_ne other
    refine ⟨slot, { v.updateInode slot (fun _ => Inode.zero) with cache := c₁ }, wasFree, others, ?_⟩
    rw [if_neg inUse, readInode, bind_run derefSb_run, bind_run cleared]
    dsimp only
    rw [bind_run checked, Bool.eq_false_of_not_eq_true inUse, Bool.not_false, if_pos rfl]
    exact ⟨rfl, Volume.updateInode_same⟩

end Lookup

/-- `get_inode` returns the inode asked for, and no other slot that somebody holds has the same number
and device. -/
def Gets (v : Volume) (num : Int) (dev : DevId) : Prop :=
  ∃ slot v', getInode num (some dev) v = some (slot, v') ∧ (v'.inodeTable slot).iNum = num ∧
    (v'.inodeTable slot).iDev = some dev ∧
    ∀ i, 0 < (v'.inodeTable i).iCount → (v'.inodeTable i).iNum = num →
      (v'.inodeTable i).iDev = some dev → i = slot

/-- The first slot with the number is the inode asked for, and nobody holds another one; or no slot has
the number, the inode is on the disk and there is a free slot for it. -/
def CanGet (v : Volume) (num : Int) (dev : DevId) : Prop :=
  match inodeSlots.find? fun i => (v.inodeTable i).iNum = num with
  | some rep => (v.inodeTable rep).iDev = some dev ∧
      ∀ i, i ≠ rep → (v.inodeTable i).iNum = num → (v.inodeTable i).iDev = some dev →
        (v.inodeTable i).iCount ≤ 0
  | none => dev = .rootfs ∧ (∃ i, (v.inodeTable i).iNum ≤ 0) ∧ NumberInUse v num = true

section Gets

variable {v : Volume} {num : Int} {dev : DevId}

theorem gets_of_found {rep : InodeNr}
    (found : (inodeSlots.find? fun i => (v.inodeTable i).iNum = num) = some rep) :
    Gets v num dev ↔ CanGet v num dev := by
  have number : (v.inodeTable rep).iNum = num := by simpa using List.find?_some found
  have counted : (v.updateInode rep fun i => { i with iCount := i.iCount + 1 }).inodeTable rep =
      { v.inodeTable rep with iCount := (v.inodeTable rep).iCount + 1 } := Volume.updateInode_same
  have other {i : InodeNr} (apart : i ≠ rep) :
      (v.updateInode rep fun i => { i with iCount := i.iCount + 1 }).inodeTable i = v.inodeTable i :=
    Volume.updateInode_of_ne apart
  have got : getInode num (some dev) v =
      some (rep, v.updateInode rep fun i => { i with iCount := i.iCount + 1 }) := by
    rw [getInode, Prog.get_bind, found]
    rfl
  rw [CanGet, found]
  constructor
  · rintro ⟨slot, v', ran, -, device, unique⟩
    obtain ⟨rfl, rfl⟩ := run_unique got ran
    rw [counted] at device
    refine ⟨device, fun i apart same device' => not_lt.mp fun live => apart (unique i ?_ ?_ ?_)⟩
    · rwa [other apart]
    · rwa [other apart]
    · rwa [other apart]
  · rintro ⟨device, unique⟩
    refine ⟨rep, _, got, by rw [counted]; exact number, by rw [counted]; exact device, ?_⟩
    intro i live same device'
    by_contra apart
    rw [other apart] at live same device'
    exact absurd live (not_lt.mpr (unique i apart same device'))

theorem not_gets_of_last {v' : Volume} (got : getInode num (some dev) v = some (lastSlot, v'))
    (wrong : (v'.inodeTable lastSlot).iNum ≠ num ∨ (v'.inodeTable lastSlot).iDev = none) :
    ¬ Gets v num dev := by
  rintro ⟨slot, v'', ran, number, device, -⟩
  obtain ⟨rfl, rfl⟩ := run_unique got ran
  rcases wrong with other | none
  · exact other number
  · rw [none] at device
    cases device

/-- No slot has the number: it is looked for on the disk. -/
theorem gets_of_absent (formatted : Formatted v.rootSb) (size : v.cache.rootfsDiskSize = 51200)
    (idle : Idle (fun _ _ => True) v.cache)
    (found : (inodeSlots.find? fun i => (v.inodeTable i).iNum = num) = none) :
    Gets v num dev ↔ CanGet v num dev := by
  have absent (i : InodeNr) : (v.inodeTable i).iNum ≠ num := by
    simpa using List.find?_eq_none.mp found i (List.mem_finRange i)
  have begun : getInode num (some dev) v =
      (readInode num (some dev) >>= fun read => pure (read.2.getD lastSlot)) v := by
    rw [getInode, Prog.get_bind, found]
  rw [CanGet, found]
  by_cases root : dev = .rootfs
  · subst root
    by_cases free : ∃ i, (v.inodeTable i).iNum ≤ 0
    · obtain ⟨slot, v', wasFree, others, read⟩ := readInode_idle num formatted size idle free
      by_cases inUse : NumberInUse v num = true
      · rw [if_pos inUse] at read
        obtain ⟨read, number, device⟩ := read
        refine iff_of_true ⟨slot, v', ?_, number, device, fun i _ same _ => ?_⟩ ⟨rfl, free, inUse⟩
        · rw [begun, bind_run read]
          rfl
        · by_contra apart
          rw [others i apart] at same
          exact absent i same
      · rw [if_neg inUse] at read
        obtain ⟨read, zero⟩ := read
        have got : getInode num (some .rootfs) v = some (lastSlot, v') := by
          rw [begun, bind_run read]
          rfl
        refine iff_of_false (not_gets_of_last got ?_) fun can => inUse can.2.2
        by_cases last : lastSlot = slot
        · rw [last, zero]
          exact .inr rfl
        · rw [others _ last]
          exact .inl (absent _)
    · push Not at free
      have full : readInode num (some .rootfs) v = some ((enospc, none), v) := by
        rw [readInode, bind_run derefSb_run, bind_run (getFreeInodeSlot_full free)]
        rfl
      have got : getInode num (some .rootfs) v = some (lastSlot, v) := by
        rw [begun, bind_run full]
        rfl
      refine iff_of_false (not_gets_of_last got (.inl (absent _))) ?_
      rintro ⟨-, ⟨i, wasFree⟩, -⟩
      exact absurd wasFree (not_le.mpr (free i))
  · -- only the root file system has a superblock, and it is followed
    refine iff_of_false ?_ fun can => root can.1
    rintro ⟨slot, v', ran, -⟩
    rw [begun] at ran
    obtain ⟨read, middle, ran, -⟩ := bind_eq_some.mp ran
    obtain ⟨sb, middle, ran, -⟩ := bind_eq_some.mp ran
    have none : getSb v (some dev) = none := if_neg fun same => root (Option.some.inj same)
    rw [derefSb, Prog.get_bind, none] at ran
    cases ran

end Gets

/-- **`get_inode` returns the inode asked for** if and only if the first slot with its number is that
inode, or no slot has its number and it can be read from the disk. -/
theorem gets_iff_canGet {v : Volume} (formatted : Formatted v.rootSb)
    (size : v.cache.rootfsDiskSize = 51200) (idle : Idle (fun _ _ => True) v.cache) (num : Int)
    (dev : DevId) : Gets v num dev ↔ CanGet v num dev := by
  cases found : inodeSlots.find? fun i => (v.inodeTable i).iNum = num with
  | some rep => exact gets_of_found found
  | none => exact gets_of_absent formatted size idle found

/-- The root directory is got on a kernel that has just started. -/
theorem image_gets_root : Gets (imageVolume plainLayout) 1 .rootfs := by
  have tree : Tree (imageVolume plainLayout) image := image_tree
  refine (gets_iff_canGet tree.formatted tree.size (tree.rest.idle.mono fun _ _ _ => trivial)
    1 .rootfs).mpr ?_
  have absent :
      (inodeSlots.find? fun i => ((imageVolume plainLayout).inodeTable i).iNum = 1) = none := by
    decide
  rw [CanGet, absent]
  exact ⟨rfl, ⟨0, by decide⟩, by decide +kernel⟩

/-- **A pipe is taken for a file**: a process makes a pipe, whose number is 2, and inode 2 of the
root file system is the pipe. -/
theorem pipe_got_for_file :
    ∃ w slot v', runFrom fileStep (bootFiles (imageVolume plainLayout)) [.pipe 1 true true] = some w ∧
      getInode 2 (some .rootfs) w.vol = some (slot, v') ∧ (v'.inodeTable slot).iNum = 2 ∧
      (v'.inodeTable slot).iDev = some .pipe := by
  have ran : ((runFrom fileStep (bootFiles (imageVolume plainLayout)) [.pipe 1 true true]).bind fun w =>
      (getInode 2 (some .rootfs) w.vol).map fun got => (w, got)).any (fun run =>
        decide ((run.2.2.inodeTable run.2.1).iNum = 2 ∧
          (run.2.2.inodeTable run.2.1).iDev = some .pipe)) = true := by
    decide +kernel
  obtain ⟨⟨w, slot, v'⟩, ran, holds⟩ := exists_of_any ran
  obtain ⟨w', piped, ran⟩ := bind_eq_some_iff.mp ran
  obtain ⟨got, looked, same⟩ := map_eq_some_iff.mp ran
  obtain ⟨rfl, rfl⟩ := Prod.mk.inj same
  exact ⟨w', slot, v', piped, looked, holds⟩

/-! ### Releasing -/

/-- The inode map is this one, in memory and on the disk. -/
def imapAllows (map : Nat → Word) (b : Nat) (words : List Word) : Prop :=
  b = imapBlock → words = slice map 0 blockSize

/-- What releasing an inode depends on: the slot holds an inode of the root file system whose zones are
data blocks. -/
structure Releasable (v : Volume) (map : Nat → Word) (inode : InodeNr) : Prop where
  formatted : Formatted v.rootSb
  size : v.cache.rootfsDiskSize = 51200
  idle : Idle (imapAllows map) v.cache
  device : (v.inodeTable inode).iDev = some .rootfs
  zones : ∀ i < nrTzones, (v.inodeTable inode).iZone i = 0#32 ∨ 4 ≤ ((v.inodeTable inode).iZone i).toNat

section Release

variable {v v' : Volume} {map : Nat → Word} {inode : InodeNr} {allowed : Nat → List Word → Prop}

theorem derefBlock_outside {blocknr : Word} (stores : Stores allowed v.cache)
    (size : v.cache.rootfsDiskSize = 51200) (outside : 51200 ≤ blocknr.toNat * blockSize % wordSize) :
    derefBlock blocknr (some .rootfs) v = none := by
  rw [Option.eq_none_iff_forall_ne_some]
  rintro ⟨i, v'⟩ ran
  obtain ⟨tbuf, middle, got, deref⟩ := bind_eq_some.mp ran
  obtain ⟨found, -⟩ := ofOption_eq_some.mp deref
  have got : ((getBlockBuffer v.cache blocknr.toNat .rootfs).bind fun p =>
    some (p.1, { v with cache := p.2 })) = some (tbuf, middle) := got
  obtain ⟨result, got, same⟩ := bind_eq_some_iff.mp got
  have positive : blocknr.toNat ≠ 0 := fun zero => by
    rw [zero, Nat.zero_mul, Nat.zero_mod] at outside
    exact absurd outside (by decide)
  have none := stores.get_outside (by rw [size]; exact outside) positive got
  rw [← (Prod.mk.inj (Option.some.inj same)).1, none] at found
  cases found

section

variable (ready : Releasable v map inode)
include ready

theorem Releasable.releaseBlock {zone : Word} {result : Int} (data : 4 ≤ zone.toNat)
    (ran : releaseBlock zone (some .rootfs) v = some (result, v')) : Releasable v' map inode := by
  by_cases inside : zone.toNat < 50
  · obtain ⟨i, c₁, c₂, j, c₃, c', released, release⟩ := releaseBlock_run ready.formatted ready.size
      ready.idle (by omega) inside (fun words same => by unfold imapBlock at same; omega)
      fun words same => absurd same (by decide)
    obtain ⟨-, rfl⟩ := run_unique released ran
    have formatted := ready.formatted
    exact ⟨⟨formatted.1, formatted.2, formatted.3, formatted.4, formatted.5, formatted.6, formatted.7,
      formatted.8⟩, release.size.trans ready.size, release.idle, ready.device, ready.zones⟩
  · rw [Fs.releaseBlock, bind_run derefSb_run] at ran
    split_ifs at ran with beyond
    · obtain ⟨-, rfl⟩ := pure_eq_some.mp ran
      exact ready
    · -- the block is behind the end of the disk: the buffer is null, and it is followed
      have small : zone.toNat ≤ 1024 := by
        rw [ready.formatted.blockmapSize] at beyond
        exact Nat.not_lt.mp beyond
      obtain ⟨i, middle, got, -⟩ := bind_eq_some.mp ran
      rw [derefBlock_outside ready.idle.stores ready.size (by unfold blockSize wordSize; omega)] at got
      cases got

theorem Releasable.clearZone (i : Nat) :
    Releasable (v.updateInode inode fun ino => { ino with iZone := update ino.iZone i 0 }) map
      inode := by
  refine ⟨ready.formatted, ready.size, ready.idle, ?_, fun j inside => ?_⟩
  · rw [Volume.updateInode_same]
    exact ready.device
  · rw [Volume.updateInode_same]
    dsimp only
    by_cases here : j = i
    · rw [here, update_self]
      exact .inl rfl
    · rw [update_of_ne here]
      exact ready.zones j inside

theorem Releasable.truncateZones {zones : List Nat} (inside : ∀ i ∈ zones, i < nrTzones)
    (ran : truncateZones inode zones v = some (⟨⟩, v')) : Releasable v' map inode := by
  induction zones generalizing v with
  | nil =>
    obtain ⟨-, rfl⟩ := pure_eq_some.mp ran
    exact ready
  | cons i zones ih =>
    obtain ⟨here, inside⟩ := List.forall_mem_cons.mp inside
    rw [Fs.truncateZones, bind_run readIno_run] at ran
    by_cases empty : (v.inodeTable inode).iZone i = 0#32
    · rw [if_neg (not_not.mpr empty)] at ran
      exact ih ready inside ran
    · rw [if_pos empty, ready.device] at ran
      obtain ⟨result, v₁, released, ran⟩ := bind_eq_some.mp ran
      have ready₁ := ready.releaseBlock ((ready.zones i here).resolve_left empty) released
      rw [bind_run updateInode_run] at ran
      exact ih (ready₁.clearZone i) inside ran

/-- **`release_inode` leaves the inode map alone.** -/
theorem Releasable.releaseInode {result : Int} (ran : releaseInode inode v = some (result, v')) :
    Idle (imapAllows map) v'.cache := by
  obtain ⟨c₁, checked, idle₁, size₁⟩ := isInodeInUse_number (v.inodeTable inode).iNum ready.formatted
    ready.size ready.idle
  have ready₁ : Releasable { v with cache := c₁ } map inode :=
    ⟨ready.formatted, size₁, idle₁, ready.device, ready.zones⟩
  rw [Fs.releaseInode, bind_run readIno_run, ready.device, bind_run derefSb_run,
    bind_run checked] at ran
  split_ifs at ran with other
  · obtain ⟨-, rfl⟩ := pure_eq_some.mp ran
    exact idle₁
  · obtain ⟨⟨⟩, v₂, truncated, ran⟩ := bind_eq_some.mp ran
    have ready₂ := ready₁.truncateZones (fun i => List.mem_range.mp) truncated
    have inside : Inside v₂.cache v.rootSb.sInodeTablenr.toNat := by
      rw [ready.formatted.inodeTablenr]
      exact inside_of_lt ready₂.size (by decide) (by decide)
    have table : v.rootSb.sInodeTablenr.toNat = 3 := by
      rw [ready.formatted.inodeTablenr]
      rfl
    obtain ⟨i, c₃, got, held, -⟩ := derefBlock_idle ready₂.idle inside
    rw [table] at held
    obtain ⟨c₄, put, idle₄, -⟩ := rewriteBlock_held (v := { v₂ with
        cache := c₃
        rootSb := { v₂.rootSb with
          sInodeInuse := v₂.rootSb.sInodeInuse - 1, sFreeInodes := v₂.rootSb.sFreeInodes + 1 } })
      held (by decide) (fun map => bitmapClearBit map blockSize (v.inodeTable inode).iNum.toNat)
      (imapAllows map 3) (fun same => absurd same (by decide))
    rw [update_eq_self] at idle₄
    rw [bind_run got, bind_run changeBlock_run, modify_bind] at ran
    obtain ⟨⟨⟩, v₅, put', ran⟩ := bind_eq_some.mp ran
    obtain rfl := (run_unique put put').2
    obtain ⟨-, rfl⟩ := Prod.mk.inj (Option.some.inj ran)
    exact idle₄

end

end Release

/-! ### Both -/

/-- The two calls. -/
inductive InodeCall
  | alloc (who : Owner) (inodev : Option DevId)
  | release (inode : InodeNr)

/-- The part of the inode table that holds an inode. -/
def inodeWords (table : List Word) (n : Nat) : List Word :=
  (table.drop (n * inodeDiskSize)).take inodeDiskSize

/-- What the call is for. An allocation returns null and leaves the maps alone, or it returns an inode
whose number was free, is valid and has its place inside the inode table. A release clears the bit
of the inode in the inode map and leaves all other bits and all other inodes on the disk alone. -/
def InodeCall.Right (v : Volume) : InodeCall → Prop
  | alloc who inodev => ∃ result v', allocInode who (some .rootfs) inodev v = some (result, v') ∧
    match result with
    | none => shown v'.cache mapBlock = shown v.cache mapBlock ∧
        shown v'.cache imapBlock = shown v.cache imapBlock
    | some slot => ∃ n : Nat, (v'.inodeTable slot).iNum = n ∧
        bitIn (shown v.cache imapBlock) n = false ∧ isValidInodeNum v.rootSb n = true ∧
        n * inodeDiskSize + inodeDiskSize ≤ v.rootSb.sInodeTableSize.toNat
  | release inode => ∃ v', releaseInode inode v = some (ok, v') ∧
    Cleared (shown v.cache imapBlock) (v.inodeTable inode).iNum.toNat (shown v'.cache imapBlock) ∧
    ∀ n, n ≠ (v.inodeTable inode).iNum.toNat →
      inodeWords (shown v'.cache 3) n = inodeWords (shown v.cache 3) n

/-- An inode is released while it is in use; its zones are data blocks. -/
def InodeCall.Asked (v : Volume) (map : Nat → Word) : InodeCall → Prop
  | alloc _ _ => True
  | release inode => (v.inodeTable inode).iDev = some .rootfs ∧ 0 < (v.inodeTable inode).iNum ∧
    (v.inodeTable inode).iNum < nrInodes ∧ bitOn map (v.inodeTable inode).iNum.toNat = true ∧
    ∀ i < nrTzones, (v.inodeTable inode).iZone i = 0#32 ∨ 4 ≤ ((v.inodeTable inode).iZone i).toNat

/-- The first free number is one that can be looked up, and `inode_table` has a free slot. -/
def InodeCall.Fits (v : Volume) (map : Nat → Word) : InodeCall → Prop
  | alloc _ _ => (∃ n, bitmapSearchFrom map blockSize 0 1 = some n ∧ n < nrInodes) ∧
    ∃ i, (v.inodeTable i).iNum ≤ 0
  | release _ => False

section Calls

variable {v : Volume} {map : Nat → Word}

theorem Mapped.imap (mapped : Mapped v map) : shown v.cache imapBlock = slice map 0 blockSize :=
  (mapped.idle.stores.shown_allowed (by decide)).2 rfl

theorem Mapped.valid (mapped : Mapped v map) {n : Nat} :
    isValidInodeNum v.rootSb n = true ↔ 0 < n ∧ n < nrInodes := by
  constructor
  · intro valid
    have range := range_of_valid valid
    omega
  · rintro ⟨positive, small⟩
    exact mapped.formatted.laid.valid n (by omega) (by omega)

theorem Mapped.alloc_iff (mapped : Mapped v map) (who : Owner) (inodev : Option DevId) :
    (InodeCall.alloc who inodev).Right v ↔ (InodeCall.alloc who inodev).Fits v map := by
  obtain ⟨first, v₁, n, imap, c₂, b, got, search, held, positive, which⟩ := mapped.search
  have ends := allocInode_ends who inodev mapped.formatted got search held positive
  by_cases free : ∃ i, (v.inodeTable i).iNum ≤ 0
  · rw [if_pos free] at ends
    obtain ⟨slot, v', allocated, number⟩ := ends
    have right : (InodeCall.alloc who inodev).Right v ↔ bitIn (shown v.cache imapBlock) n = false ∧
        isValidInodeNum v.rootSb n = true ∧
        n * inodeDiskSize + inodeDiskSize ≤ v.rootSb.sInodeTableSize.toNat := by
      constructor
      · rintro ⟨result, v'', allocated', holds⟩
        obtain ⟨rfl, rfl⟩ := run_unique allocated allocated'
        obtain ⟨m, number', holds⟩ := holds
        obtain rfl : n = m := Int.ofNat.inj (number.symm.trans number')
        exact holds
      · exact fun holds => ⟨some slot, v', allocated, n, number, holds⟩
    rw [right, mapped.imap, mapped.valid]
    rcases which with found | ⟨full, small⟩
    · constructor
      · rintro ⟨-, ⟨-, small⟩, -⟩
        exact ⟨⟨n, found, small⟩, free⟩
      · rintro ⟨⟨m, found', small⟩, -⟩
        obtain rfl : n = m := Option.some.inj (found.symm.trans found')
        obtain ⟨inMap, off⟩ := search_some found
        refine ⟨(bitIn_slice inMap).trans off, ⟨Nat.pos_of_ne_zero ?_, small⟩, ?_⟩
        · rintro rfl
          rw [mapped.reserved] at off
          cases off
        · rw [mapped.formatted.inodeTableSize]
          simp only [nrInodes] at small
          show n * 16 + 16 ≤ 1024
          omega
    · refine iff_of_false ?_ ?_
      · rintro ⟨off, -⟩
        rw [bitIn_slice small, search_none full small] at off
        cases off
      · rintro ⟨⟨m, found, -⟩, -⟩
        rw [full] at found
        cases found
  · rw [if_neg free] at ends
    refine iff_of_false ?_ fun fits => free fits.2
    rintro ⟨result, v', allocated, -⟩
    rw [ends] at allocated
    cases allocated

end Calls

/-- **Numbers are given out rightly** if and only if the first free one can be looked up and there is a
free slot; they are never given back. -/
theorem inodeCall_right_iff {v : Volume} {map : Nat → Word} (mapped : Mapped v map) (call : InodeCall)
    (asked : call.Asked v map) : call.Right v ↔ call.Fits v map := by
  cases call with
  | alloc who inodev => exact mapped.alloc_iff who inodev
  | release inode =>
    obtain ⟨device, positive, small, used, zones⟩ := asked
    refine iff_of_false ?_ id
    rintro ⟨v', released, cleared, -⟩
    have ready : Releasable v map inode := ⟨mapped.formatted, mapped.size,
      mapped.idle.mono fun b words may => may.2, device, zones⟩
    have after : shown v'.cache imapBlock = slice map 0 blockSize :=
      (ready.releaseInode released).stores.shown_allowed (by decide) rfl
    have inMap : (v.inodeTable inode).iNum.toNat < blockSize * 32 := by
      simp only [nrInodes] at small
      unfold blockSize
      omega
    have off := cleared _ inMap
    rw [after, bitIn_slice inMap, used] at off
    simp at off

/-- The inode map of the image. -/
def imageImap (k : Nat) : Word := image (imapBlock * blockSize + k)

theorem image_mapped : Mapped (imageVolume plainLayout) imageImap := by
  have tree : Tree (imageVolume plainLayout) image := image_tree
  refine ⟨tree.formatted, tree.size, tree.rest.idle.mono fun b words may => ⟨?_, ?_⟩, by decide +kernel⟩
  · rintro rfl
    rw [may]
    exact ⟨by decide +kernel, 5, by decide, by decide +kernel⟩
  · rintro rfl
    rw [may]
    exact slice_congr fun k _ => by rw [Nat.zero_add]; rfl

/-- It gives out a number. -/
theorem image_alloc_right :
    (InodeCall.alloc ⟨0, 0, 0⟩ (some .rootfs)).Right (imageVolume plainLayout) :=
  (inodeCall_right_iff image_mapped (.alloc ⟨0, 0, 0⟩ (some .rootfs)) trivial).mpr
    ⟨⟨2, by decide +kernel, by decide⟩, 0, by decide⟩

/-- Allocate an inode, release it, and ask whether it is in use: its number, the result of the release
and the answer. -/
def allocThenRelease : VolM (Int × Int × Bool) := do
  let inode ← Prog.ofOption (← allocInode ⟨0, 0, 0⟩ (some .rootfs) (some .rootfs))
  let num := (← readIno inode).iNum
  let result ← releaseInode inode
  return (num, result, ← isInodeInUse num (some .rootfs))

/-- **A released inode stays in use.** -/
theorem released_still_in_use :
    (allocThenRelease (imageVolume plainLayout)).map Prod.fst = some (2, ok, true) := by
  decide +kernel

end Winix.Fs
