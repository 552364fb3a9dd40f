/-
**Taking a block.**

`alloc_block` takes the first block whose bit in the block map is free, as the cache shows the map.

* `allocBlock_run`: the number of the block, and the map that is left;
* `allocBlock_full`: without a free bit, `ENOSPC`.
-/

import Winix.Fs.Imap

namespace Winix.Fs

open Kernel Lib Function Prog

/-- The first free bit of a map. -/
def firstFree (words : List Word) : Option Nat :=
  (List.range (blockSize * 32)).find? fun n => !bitIn words n

/-- The map has the bit of the block set and the other bits as before. -/
def Marked (before : List Word) (b : Nat) (words : List Word) : Prop :=
  ∀ n < blockSize * 32, bitIn words n = (decide (n = b) || bitIn before n)

/-- What of the superblock the taking of a block depends on. -/
structure Bounded (sb : Superblock) : Prop where
  blockmapnr : sb.sBlockmapnr = 1
  blockmapSize : sb.sBlockmapSize = 1024

theorem Formatted.bounded {sb : Superblock} (formatted : Formatted sb) : Bounded sb :=
  ⟨formatted.blockmapnr, formatted.blockmapSize⟩

/-- The counters of the superblock and of the inode when a block has been taken. -/
def Volume.taken (v : Volume) (ino : InodeNr) : Volume :=
  { v with rootSb := { v.rootSb with
      sBlockInuse := v.rootSb.sBlockInuse + 1, sFreeBlocks := v.rootSb.sFreeBlocks - 1 } }.updateInode
    ino fun i => { i with iTotalSize := i.iTotalSize + BitVec.ofNat 32 blockSize }

section Maps

variable {map : Nat → Word} {words : List Word} {n : Nat}

theorem search_eq_firstFree :
    bitmapSearchFrom map blockSize 0 1 = firstFree (slice map 0 blockSize) := by
  rw [bitmapSearchFrom_one _ (by decide), firstFree]
  refine List.find?_congr fun n member => ?_
  rw [bitIn_slice (List.mem_range.mp member)]

theorem firstFree_lt (free : firstFree words = some n) : n < blockSize * 32 := by
  rw [firstFree] at free
  exact List.mem_range.mp (List.mem_of_find?_eq_some free)

theorem firstFree_free (free : firstFree words = some n) : bitIn words n = false := by
  rw [firstFree] at free
  simpa using List.find?_some free

theorem marked_bitmapSetBit (map : Nat → Word) (small : n < blockSize * 32) :
    Marked (slice map 0 blockSize) n (slice (bitmapSetBit map blockSize n) 0 blockSize) := by
  intro m inside
  rw [bitIn_slice inside, bitIn_slice inside, bitmapSetBit, if_neg (Nat.not_le.mpr small)]
  exact bitOn_markBit map n m

end Maps

section Alloc

variable {v : Volume} {allowed : Nat → List Word → Prop} {n : Nat}

theorem allocBlock_writes (ino : InodeNr) (idle : Idle allowed v.cache) (bounded : Bounded v.rootSb)
    (inside : Inside v.cache mapBlock) (free : firstFree (shown v.cache mapBlock) = some (n + 1))
    (new : List Word → Prop) (may : ∀ map : Nat → Word, slice map 0 blockSize = shown v.cache mapBlock →
      new (slice (bitmapSetBit map blockSize (n + 1)) 0 blockSize)) :
    ∃ c', allocBlock ino (some .rootfs) v = some ((n + 1 : Int), { v.taken ino with cache := c' }) ∧
      Idle (update allowed mapBlock new) c' ∧ c'.rootfsDiskSize = v.cache.rootfsDiskSize := by
  have first : Inside v.cache (1 : Word).toNat := inside
  obtain ⟨i, c₁, got, held, took⟩ := derefBlock_idle (v := v) idle first
  have found : bitmapSearchFrom (c₁.bufTable i).block blockSize 0 1 = some (n + 1) := by
    rw [search_eq_firstFree, took.words]
    exact free
  obtain ⟨c₂, put, idle₂, same⟩ :=
    rewriteBlock_held (v := { v.taken ino with cache := c₁ }) held (by decide)
    (fun words => bitmapSetBit words blockSize (n + 1)) _ (may _ took.words)
  refine ⟨c₂, ?_, idle₂, same.size.trans took.size⟩
  have size : v.rootSb.sBlockmapSize.toNat / blockSize = 0 + 1 := by
    rw [bounded.blockmapSize]
    rfl
  rw [allocBlock, bind_run derefSb_run, bounded.blockmapnr, size, bind_run got, allocFrom,
    bind_run readBlock_run, found]
  dsimp only
  rw [bind_run changeBlock_run, modify_bind, bind_run updateInode_run]
  exact bind_run put

/-- **A free block is taken.** -/
theorem allocBlock_run (ino : InodeNr) (idle : Idle allowed v.cache) (bounded : Bounded v.rootSb)
    (inside : Inside v.cache mapBlock) (free : firstFree (shown v.cache mapBlock) = some (n + 1)) :
    ∃ c', allocBlock ino (some .rootfs) v = some ((n + 1 : Int), { v.taken ino with cache := c' }) ∧
      Idle (update allowed mapBlock (Marked (shown v.cache mapBlock) (n + 1))) c' ∧
      c'.rootfsDiskSize = v.cache.rootfsDiskSize :=
  allocBlock_writes ino idle bounded inside free (Marked (shown v.cache mapBlock) (n + 1))
    fun map same => by
    rw [← same]
    exact marked_bitmapSetBit map (firstFree_lt free)

/-- The map of an array after a block has been taken. -/
def takeBit (array : Nat → Word) (n : Nat) : Nat → Word :=
  copyWords blockSize array (mapBlock * blockSize)
    (bitmapSetBit (fun k => array (mapBlock * blockSize + k)) blockSize n) 0

/-- The words of a block after a bit has been set depend on its words only. -/
theorem slice_bitmapSetBit {map other : Nat → Word}
    (same : slice map 0 blockSize = slice other 0 blockSize) (small : n < blockSize * 32) :
    slice (bitmapSetBit map blockSize n) 0 blockSize =
      slice (bitmapSetBit other blockSize n) 0 blockSize := by
  refine slice_congr fun k inside => ?_
  have here := eq_of_slice_eq same inside
  rw [bitmapSetBit, bitmapSetBit, if_neg (Nat.not_le.mpr small), if_neg (Nat.not_le.mpr small)]
  by_cases word : 0 + k = n / 32
  · rw [markBit, markBit, word, update_self, update_self, ← word, here]
  · rw [markBit, markBit, update_of_ne word, update_of_ne word, here]

/-- **A free block is taken**, of a volume whose map is known. -/
theorem allocBlock_settled {own : Nat → Prop} {array : Nat → Word} (ino : InodeNr)
    (idle : Idle (settled own array) v.cache) (mine : own mapBlock)
    (bounded : Bounded v.rootSb) (inside : Inside v.cache mapBlock)
    (free : firstFree (slice array (mapBlock * blockSize) blockSize) = some (n + 1)) :
    ∃ c', allocBlock ino (some .rootfs) v = some ((n + 1 : Int), { v.taken ino with cache := c' }) ∧
      Idle (settled own (takeBit array (n + 1))) c' ∧ c'.rootfsDiskSize = v.cache.rootfsDiskSize := by
  have map : shown v.cache mapBlock = slice array (mapBlock * blockSize) blockSize :=
    idle.stores.shown_allowed (by decide) mine
  have part : slice array (mapBlock * blockSize) blockSize =
      slice (fun k => array (mapBlock * blockSize + k)) 0 blockSize :=
    slice_congr fun k _ => by rw [Nat.zero_add]
  obtain ⟨c', ran, idle', size⟩ := allocBlock_writes ino idle bounded inside (map ▸ free)
    (fun words => words =
      slice (bitmapSetBit (fun k => array (mapBlock * blockSize + k)) blockSize (n + 1))
      0 blockSize)
    fun words same => slice_bitmapSetBit ((same.trans map).trans part) (firstFree_lt free)
  refine ⟨c', ran, idle'.mono fun b words may own => ?_, size⟩
  by_cases here : b = mapBlock
  · rw [here, update_self] at may
    rw [here, may]
    exact (slice_copyWords ..).symm
  · rw [update_of_ne here] at may
    exact (may own).trans (slice_copyBlock_of_ne _ _ here).symm

theorem allocBlock_full (ino : InodeNr) (idle : Idle allowed v.cache) (bounded : Bounded v.rootSb)
    (inside : Inside v.cache mapBlock) (inside' : Inside v.cache 2)
    (full : ∀ n, firstFree (shown v.cache mapBlock) ≠ some (n + 1)) :
    ∃ c', allocBlock ino (some .rootfs) v = some (enospc, { v with cache := c' }) ∧ Idle allowed c' ∧
      c'.rootfsDiskSize = v.cache.rootfsDiskSize := by
  have first : Inside v.cache (1 : Word).toNat := inside
  obtain ⟨i, c₁, got, held, took⟩ := derefBlock_idle (v := v) idle first
  obtain ⟨c₂, put, idle₂, same⟩ := putBlock_held (v := { v with cache := c₁ }) held
  have size₂ : c₂.rootfsDiskSize = v.cache.rootfsDiskSize := same.size.trans took.size
  have second : Inside c₂ (1 + 1 : Word).toNat := inside_of_size size₂ inside'
  obtain ⟨j, c₃, got', held', took'⟩ := derefBlock_idle (v := { v with cache := c₂ }) idle₂ second
  obtain ⟨c₄, put', idle₄, same'⟩ := putBlock_held (v := { v with cache := c₃ }) held'
  refine ⟨c₄, ?_, idle₄, (same'.size.trans took'.size).trans size₂⟩
  have size : v.rootSb.sBlockmapSize.toNat / blockSize = 0 + 1 := by
    rw [bounded.blockmapSize]
    rfl
  have search :
      bitmapSearchFrom (c₁.bufTable i).block blockSize 0 1 = firstFree (shown v.cache mapBlock) := by
    rw [search_eq_firstFree, took.words]
    rfl
  rw [allocBlock, bind_run derefSb_run, bounded.blockmapnr, size, bind_run got, allocFrom,
    bind_run readBlock_run, search]
  cases found : firstFree (shown v.cache mapBlock) with
  | none =>
    dsimp only
    rw [bind_run put, bind_run got', allocFrom, bind_run put']
    rfl
  | some n =>
    cases n with
    | zero =>
      dsimp only
      rw [bind_run put, bind_run got', allocFrom, bind_run put']
      rfl
    | succ n => exact absurd found (full n)

end Alloc

end Winix.Fs
