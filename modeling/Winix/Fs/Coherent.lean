/-
**Buffers and disk, block by block.**

A block lies on the disk and may lie in a buffer too. `Stores allowed c` says for every block which
words it may have: a buffer with a block has allowed words, and where no buffer is dirty the disk
does too. One lemma for each thing the cache does to a buffer:

* `Stores.writeBack`: the dirty words are allowed, so the disk may take them;
* `Stores.load`: a clean buffer may take a block that is not in memory from the disk;
* `Stores.assign`: new words in a dirty buffer are the only ones the block has from then on;
* `Stores.stain`: new words in a buffer that is not marked must be allowed beside those on the disk.

`Coherent c array` is the case in which every block has one content: the buffers and the disk hold the
array of words their user believes in.
-/

import Winix.Fs.Cache

namespace Winix.Fs

variable {c : Cache}

open Kernel Lib Function

/-! ### The words of a block -/

/-- No block is in two buffers, and every block has words that are allowed for it, in its buffer and on
the disk. -/
structure Stores (allowed : Nat → List Word → Prop) (c : Cache) : Prop where
  range : ∀ i, (c.bufTable i).bBlocknr ≠ 0 →
    (c.bufTable i).bBlocknr * blockSize + blockSize ≤ c.rootfsDiskSize.toNat
  unique : ∀ i j, (c.bufTable i).bBlocknr ≠ 0 →
    (c.bufTable i).bBlocknr = (c.bufTable j).bBlocknr → i = j
  dirty : ∀ i, (c.bufTable i).bDirt = true →
    (c.bufTable i).bBlocknr ≠ 0
  device : ∀ i, (c.bufTable i).bBlocknr ≠ 0 → (c.bufTable i).bDev = some .rootfs
  contents : ∀ i, (c.bufTable i).bBlocknr ≠ 0 →
    allowed (c.bufTable i).bBlocknr (slice (c.bufTable i).block 0 blockSize)
  disk : ∀ b, (∀ i, (c.bufTable i).bDirt = true → (c.bufTable i).bBlocknr ≠ b) →
    allowed b (slice c.rootfsDisk (b * blockSize) blockSize)

/-- A cache in which every buffer has the block it had, other words allowed. -/
theorem Stores.keep {allowed other : Nat → List Word → Prop} {c' : Cache} (stores : Stores allowed c)
    (blocknr : ∀ i, (c'.bufTable i).bBlocknr = (c.bufTable i).bBlocknr)
    (dev : ∀ i, (c'.bufTable i).bDev = (c.bufTable i).bDev)
    (size : c'.rootfsDiskSize = c.rootfsDiskSize)
    (dirty : ∀ i, (c'.bufTable i).bDirt = true → (c.bufTable i).bBlocknr ≠ 0)
    (contents : ∀ i, (c.bufTable i).bBlocknr ≠ 0 →
      other (c.bufTable i).bBlocknr (slice (c'.bufTable i).block 0 blockSize))
    (disk : ∀ b, (∀ i, (c'.bufTable i).bDirt = true → (c.bufTable i).bBlocknr ≠ b) →
      other b (slice c'.rootfsDisk (b * blockSize) blockSize)) : Stores other c' := by
  constructor <;> simp only [blocknr, dev, size]
  · exact stores.range
  · exact stores.unique
  · exact dirty
  · exact stores.device
  · exact contents
  · exact disk

theorem Stores.mono {allowed other : Nat → List Word → Prop}
    (more : ∀ b words, allowed b words → other b words) (stores : Stores allowed c) :
    Stores other c :=
  ⟨stores.range, stores.unique, stores.dirty, stores.device,
    fun i used => more _ _ (stores.contents i used), fun b clean => more _ _ (stores.disk b clean)⟩

/-- What is allowed for one block: every word that it has, in its buffer and on the disk. -/
theorem Stores.narrow {b : Nat} {new : List Word → Prop} (stores : Stores (fun _ _ => True) c)
    (memory : ∀ i, (c.bufTable i).bBlocknr = b → new (slice (c.bufTable i).block 0 blockSize))
    (disk : (∀ i, (c.bufTable i).bDirt = true → (c.bufTable i).bBlocknr ≠ b) →
      new (slice c.rootfsDisk (b * blockSize) blockSize)) :
    Stores (update (fun _ _ => True) b new) c := by
  refine ⟨stores.range, stores.unique, stores.dirty, stores.device, fun i _ => ?_, fun b' clean => ?_⟩
  · by_cases here : (c.bufTable i).bBlocknr = b
    · rw [here, update_self]
      exact memory i here
    · rw [update_of_ne here]
      trivial
  · by_cases here : b' = b
    · rw [here, update_self]
      exact disk (here ▸ clean)
    · rw [update_of_ne here]
      trivial

/-- The words of one array. -/
def ofArray (array : Nat → Word) (b : Nat) (words : List Word) : Prop :=
  words = slice array (b * blockSize) blockSize

/-- The buffers and the disk hold the array. -/
structure Coherent (c : Cache) (array : Nat → Word) : Prop where
  range : ∀ i, (c.bufTable i).bBlocknr ≠ 0 →
    (c.bufTable i).bBlocknr * blockSize + blockSize ≤ c.rootfsDiskSize.toNat
  unique : ∀ i j, (c.bufTable i).bBlocknr ≠ 0 →
    (c.bufTable i).bBlocknr = (c.bufTable j).bBlocknr → i = j
  dirty : ∀ i, (c.bufTable i).bDirt = true →
    (c.bufTable i).bBlocknr ≠ 0
  device : ∀ i, (c.bufTable i).bBlocknr ≠ 0 → (c.bufTable i).bDev = some .rootfs
  contents : ∀ i, (c.bufTable i).bBlocknr ≠ 0 →
    slice (c.bufTable i).block 0 blockSize =
      slice array ((c.bufTable i).bBlocknr * blockSize) blockSize
  disk : ∀ k, (∀ i, (c.bufTable i).bDirt = true → (c.bufTable i).bBlocknr ≠ k / blockSize) →
    c.rootfsDisk k = array k

theorem Coherent.stores {array : Nat → Word} (coherent : Coherent c array) :
    Stores (ofArray array) c := by
  refine ⟨coherent.range, coherent.unique, coherent.dirty, coherent.device, coherent.contents,
    fun b clean => slice_congr fun k inside => coherent.disk _ fun i dirt => ?_⟩
  rw [div_blockSize inside]
  exact clean i dirt

theorem Stores.coherent {array : Nat → Word} (stores : Stores (ofArray array) c) :
    Coherent c array := by
  refine ⟨stores.range, stores.unique, stores.dirty, stores.device, stores.contents, fun k clean => ?_⟩
  have place : k / blockSize * blockSize + k % blockSize = k := Nat.div_add_mod' k blockSize
  have same := eq_of_slice_eq (stores.disk _ clean) (Nat.mod_lt k (by decide : 0 < blockSize))
  rwa [place] at same

/-- Two caches that differ in the list and the use counts only. -/
structure SameBlocks (c c' : Cache) : Prop where
  block : ∀ i, (c'.bufTable i).block = (c.bufTable i).block
  blocknr : ∀ i, (c'.bufTable i).bBlocknr = (c.bufTable i).bBlocknr
  dirt : ∀ i, (c'.bufTable i).bDirt = (c.bufTable i).bDirt
  dev : ∀ i, (c'.bufTable i).bDev = (c.bufTable i).bDev
  disk : c'.rootfsDisk = c.rootfsDisk
  size : c'.rootfsDiskSize = c.rootfsDiskSize

theorem SameBlocks.setLinks (c : Cache) (d : Links BufNr) : SameBlocks c (c.setLinks d) :=
  ⟨fun _ => rfl, fun _ => rfl, fun _ => rfl, fun _ => rfl, rfl, rfl⟩

theorem SameBlocks.count (c : Cache) (i : BufNr) (count : Int → Int) :
    SameBlocks c (c.updateBuf i fun buf => { buf with bCount := count buf.bCount }) :=
  ⟨fun j => updateBuf_field c i j _ rfl, fun j => updateBuf_field c i j _ rfl,
    fun j => updateBuf_field c i j _ rfl, fun j => updateBuf_field c i j _ rfl, rfl, rfl⟩

theorem SameBlocks.trans {c c' c'' : Cache} (first : SameBlocks c c') (second : SameBlocks c' c'') :
    SameBlocks c c'' where
  block i := (second.block i).trans (first.block i)
  blocknr i := (second.blocknr i).trans (first.blocknr i)
  dirt i := (second.dirt i).trans (first.dirt i)
  dev i := (second.dev i).trans (first.dev i)
  disk := second.disk.trans first.disk
  size := second.size.trans first.size

theorem SameBlocks.stores {c c' : Cache} {allowed : Nat → List Word → Prop} (same : SameBlocks c c')
    (stores : Stores allowed c) : Stores allowed c' := by
  refine stores.keep same.blocknr same.dev same.size ?_ ?_ ?_ <;>
    simp only [same.dirt, same.block, same.disk]
  · exact stores.dirty
  · exact stores.contents
  · exact stores.disk

/-! ### Copying one block -/

/-- A word outside a block does not change when the block is written. -/
theorem copyBlock_outside (array block : Nat → Word) {b k : Nat} (outside : b ≠ k / blockSize) :
    copyWords blockSize array (b * blockSize) block 0 k = array k := by
  refine copyWords_outside _ _ _ _ _ ?_
  unfold blockSize at *
  omega

theorem slice_copyBlock_of_ne (array block : Nat → Word) {b other : Nat} (ne : other ≠ b) :
    slice (copyWords blockSize array (b * blockSize) block 0) (other * blockSize) blockSize =
      slice array (other * blockSize) blockSize := by
  refine slice_congr fun k inside => copyBlock_outside array block ?_
  rw [div_blockSize inside]
  exact ne.symm

/-! ### What the cache does to a buffer -/

/-- Writing dirty buffers back changes nothing else. -/
structure Cleaned (c c' : Cache) : Prop where
  block : ∀ i, (c'.bufTable i).block = (c.bufTable i).block
  blocknr : ∀ i, (c'.bufTable i).bBlocknr = (c.bufTable i).bBlocknr
  dev : ∀ i, (c'.bufTable i).bDev = (c.bufTable i).bDev
  dirt : ∀ i, (c'.bufTable i).bDirt = true → (c.bufTable i).bDirt = true
  links : c'.links = c.links
  size : c'.rootfsDiskSize = c.rootfsDiskSize

section Buffers

variable {c : Cache} {allowed : Nat → List Word → Prop}
variable {i : BufNr} {c' : Cache} {block : Nat → Word}

theorem Stores.offset (stores : Stores allowed c) (used : (c.bufTable i).bBlocknr ≠ 0) :
    (c.bufTable i).bBlocknr * blockSize % wordSize = (c.bufTable i).bBlocknr * blockSize := by
  have inside := stores.range i used
  have size := c.rootfsDiskSize.isLt
  refine Nat.mod_eq_of_lt ?_
  unfold blockSize wordSize at *
  omega

/-- `block_io(tbuf, dev, WRITING)` of a buffer that has a block. -/
theorem Stores.blockIoWrite_eq (stores : Stores allowed c) (used : (c.bufTable i).bBlocknr ≠ 0)
    (dev : Device) :
    (blockIoWrite c i dev).2 =
      { c with
        rootfsDisk := copyWords blockSize c.rootfsDisk ((c.bufTable i).bBlocknr * blockSize)
          (c.bufTable i).block 0 } := by
  have inside := stores.range i used
  rw [blockIoWrite, stores.offset used, blkDevIoWrite_inside _ _
    (Nat.lt_of_lt_of_le (Nat.lt_add_of_pos_right (by decide)) inside) inside le_rfl]

theorem writeBack_clean (i : BufNr) (dev : Device) :
    ((writeBack c i dev).bufTable i).bDirt = false := by
  unfold writeBack
  split_ifs with dirt
  · rw [updateBuf_self]
  · exact Bool.eq_false_of_not_eq_true dirt

theorem Stores.writeBack_cleaned (stores : Stores allowed c) (i : BufNr) (dev : Device) :
    Cleaned c (writeBack c i dev) := by
  unfold writeBack
  split_ifs with dirt
  · rw [stores.blockIoWrite_eq (stores.dirty i dirt)]
    generalize copyWords blockSize _ _ _ _ = disk
    refine ⟨?_, ?_, ?_, ?_, links_updateBuf _ _ _ rfl rfl, rfl⟩
    all_goals
      intro j
      by_cases here : j = i
      · subst here
        simp
      · simp [updateBuf_of_ne _ _ here]
  · exact ⟨fun _ => rfl, fun _ => rfl, fun _ => rfl, fun _ => id, rfl, rfl⟩

theorem writeBack_of_ne {i j : BufNr} (ne : j ≠ i) (dev : Device) :
    ((writeBack c i dev).bufTable j).bDirt = (c.bufTable j).bDirt := by
  unfold writeBack
  split_ifs
  · rw [updateBuf_of_ne _ _ ne]
    unfold blockIoWrite blkDevIoWrite
    dsimp only
    split_ifs <;> rfl
  · rfl

theorem Stores.writeBack_disk (stores : Stores allowed c) (dirt : (c.bufTable i).bDirt = true)
    (dev : Device) :
    (writeBack c i dev).rootfsDisk =
      copyWords blockSize c.rootfsDisk ((c.bufTable i).bBlocknr * blockSize)
        (c.bufTable i).block 0 := by
  rw [Fs.writeBack, if_pos dirt, stores.blockIoWrite_eq (stores.dirty i dirt)]
  generalize copyWords blockSize _ _ _ _ = disk
  rfl

theorem Stores.writeBack_elsewhere (stores : Stores allowed c) (i : BufNr) (dev : Device) (b : Nat)
    (clean : ∀ j, (c.bufTable j).bDirt = true → (c.bufTable j).bBlocknr ≠ b) :
    slice (writeBack c i dev).rootfsDisk (b * blockSize) blockSize =
      slice c.rootfsDisk (b * blockSize) blockSize := by
  by_cases dirt : (c.bufTable i).bDirt = true
  · rw [stores.writeBack_disk dirt dev, slice_copyBlock_of_ne _ _ (clean i dirt).symm]
  · rw [Fs.writeBack, if_neg dirt]

/-- **Writing back** keeps the words: those of the buffer are allowed. -/
theorem Stores.writeBack (stores : Stores allowed c) (i : BufNr) (dev : Device) :
    Stores allowed (writeBack c i dev) := by
  have cleaned := stores.writeBack_cleaned i dev
  refine stores.keep cleaned.blocknr cleaned.dev cleaned.size
    (fun j dirt => stores.dirty j (cleaned.dirt j dirt)) (fun j => ?_) fun b clean => ?_
  · rw [cleaned.block]
    exact stores.contents j
  · by_cases dirt : (c.bufTable i).bDirt = true
    · rw [stores.writeBack_disk dirt dev]
      by_cases here : (c.bufTable i).bBlocknr = b
      · rw [← here, slice_copyWords]
        exact stores.contents i (stores.dirty i dirt)
      · rw [slice_copyBlock_of_ne _ _ (Ne.symm here)]
        refine stores.disk b fun j dirt => ?_
        by_cases same : j = i
        · exact same ▸ here
        · exact clean j ((writeBack_of_ne same dev).trans dirt)
    · have unchanged : Fs.writeBack c i dev = c := if_neg dirt
      rw [unchanged] at clean ⊢
      exact stores.disk b clean

/-- A clean buffer `i` that is given the block `b` of the disk, and nothing else. -/
structure Loaded (c : Cache) (i : BufNr) (b : Nat) (c' : Cache) : Prop where
  words : slice (c'.bufTable i).block 0 blockSize = slice c.rootfsDisk (b * blockSize) blockSize
  blocknr : (c'.bufTable i).bBlocknr = b
  clean : (c'.bufTable i).bDirt = false
  dev : (c'.bufTable i).bDev = some .rootfs
  others : ∀ j, j ≠ i → c'.bufTable j = c.bufTable j
  disk : c'.rootfsDisk = c.rootfsDisk
  size : c'.rootfsDiskSize = c.rootfsDiskSize

/-- **Loading** a block that is not in memory into a clean buffer keeps the words. -/
theorem Stores.load {b : Nat} (stores : Stores allowed c) (clean : (c.bufTable i).bDirt = false)
    (inside : b * blockSize + blockSize ≤
      c.rootfsDiskSize.toNat) (absent : ∀ j, j ≠ i → (c.bufTable j).bBlocknr ≠ b)
    (loaded : Loaded c i b c') : Stores allowed c' := by
  constructor
  · intro j used
    rw [loaded.size]
    by_cases here : j = i
    · subst here
      rwa [loaded.blocknr]
    · rw [loaded.others j here] at used ⊢
      exact stores.range j used
  · intro j k used same
    by_cases first : j = i
    · by_cases second : k = i
      · rw [first, second]
      · rw [first, loaded.blocknr, loaded.others k second] at same
        exact absurd same.symm (absent k second)
    · by_cases second : k = i
      · rw [second, loaded.blocknr, loaded.others j first] at same
        exact absurd same (absent j first)
      · rw [loaded.others j first] at used same
        rw [loaded.others k second] at same
        exact stores.unique j k used same
  · intro j dirt
    by_cases here : j = i
    · rw [here, loaded.clean] at dirt
      cases dirt
    · rw [loaded.others j here] at dirt ⊢
      exact stores.dirty j dirt
  · intro j used
    by_cases here : j = i
    · rw [here]
      exact loaded.dev
    · rw [loaded.others j here] at used ⊢
      exact stores.device j used
  · intro j used
    by_cases here : j = i
    · subst here
      rw [loaded.words, loaded.blocknr]
      refine stores.disk b fun other dirt => absent other fun same => ?_
      rw [same, clean] at dirt
      cases dirt
    · rw [loaded.others j here] at used ⊢
      exact stores.contents j used
  · intro other free
    rw [loaded.disk]
    refine stores.disk other fun j dirt => ?_
    have apart : j ≠ i := by
      rintro rfl
      rw [clean] at dirt
      cases dirt
    have stays := free j
    rw [loaded.others j apart] at stays
    exact stays dirt

/-- The buffer `i` is given new words and is marked dirty, and nothing else. -/
structure Assigned (c : Cache) (i : BufNr) (block : Nat → Word) (c' : Cache) : Prop where
  buffer : c'.bufTable i = { c.bufTable i with block, bDirt := true }
  others : ∀ j, j ≠ i → c'.bufTable j = c.bufTable j
  disk : c'.rootfsDisk = c.rootfsDisk
  size : c'.rootfsDiskSize = c.rootfsDiskSize

theorem Assigned.blocknr (assigned : Assigned c i block c') (j : BufNr) :
    (c'.bufTable j).bBlocknr = (c.bufTable j).bBlocknr := by
  by_cases here : j = i
  · rw [here, assigned.buffer]
  · rw [assigned.others j here]

/-- **Assigning** new words to a buffer and marking it dirty: the block has these words alone. -/
theorem Stores.assign {new : List Word → Prop} (stores : Stores allowed c)
    (used : (c.bufTable i).bBlocknr ≠ 0) (assigned : Assigned c i block c')
    (may : new (slice block 0 blockSize)) :
    Stores (update allowed (c.bufTable i).bBlocknr new) c' := by
  refine stores.keep assigned.blocknr (fun j => ?_) assigned.size (fun j dirt => ?_) (fun j used => ?_)
    fun b clean => ?_
  · by_cases here : j = i
    · rw [here, assigned.buffer]
    · rw [assigned.others j here]
  · by_cases here : j = i
    · rwa [here]
    · rw [assigned.others j here] at dirt
      exact stores.dirty j dirt
  · by_cases here : j = i
    · rw [here, assigned.buffer, update_self]
      exact may
    · have apart : (c.bufTable j).bBlocknr ≠ (c.bufTable i).bBlocknr := fun same =>
        here (stores.unique j i used same)
      rw [assigned.others j here, update_of_ne apart]
      exact stores.contents j used
  · have apart : b ≠ (c.bufTable i).bBlocknr := (clean i (by rw [assigned.buffer])).symm
    rw [assigned.disk, update_of_ne apart]
    refine stores.disk b fun j dirt => ?_
    by_cases here : j = i
    · rw [here]
      exact apart.symm
    · refine clean j ?_
      rwa [assigned.others j here]

/-- **New words in a buffer that is not marked** must be allowed, as the disk may still have the old
ones. -/
theorem Stores.stain (stores : Stores allowed c)
    (may : allowed (c.bufTable i).bBlocknr (slice block 0 blockSize)) :
    Stores allowed (c.updateBuf i fun buf => { buf with block }) := by
  have dirt (j : BufNr) : ((c.updateBuf i fun buf => { buf with block }).bufTable j).bDirt =
      (c.bufTable j).bDirt := updateBuf_field c i j _ rfl
  refine stores.keep (fun j => updateBuf_field c i j _ rfl) (fun j => updateBuf_field c i j _ rfl) rfl
    (fun j => ?_) (fun j used => ?_) fun b clean => ?_
  · rw [dirt]
    exact stores.dirty j
  · by_cases here : j = i
    · rw [here, updateBuf_self]
      exact may
    · rw [updateBuf_of_ne _ _ here]
      exact stores.contents j used
  · refine stores.disk b fun j => ?_
    rw [← dirt]
    exact clean j

end Buffers

end Winix.Fs
