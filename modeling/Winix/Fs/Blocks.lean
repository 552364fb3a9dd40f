/-
**Blocks of a volume.**

The file system holds one buffer at a time: it gets a block, reads or changes the words in the buffer,
and puts it back. Between two such uses the cache is `Idle`, and every block has words that are allowed
for it; while a buffer is out it is `Held`. Where every block has one content the cache is at
`Rest`, and what it shows is a flat array of words. The lemmas carry the refinement of
`Winix.Fs.Flat` over to these uses.
-/

import Winix.Fs.Flat
import Winix.Fs.Inode

namespace Winix.Fs

open Kernel Lib Function Option

/-- Nobody holds a buffer, and every block has allowed words. -/
structure Idle (allowed : Nat → List Word → Prop) (c : Cache) : Prop where
  stores : Stores allowed c
  listed : Listed c []

/-- The buffer is out, with this block. -/
structure Held (allowed : Nat → List Word → Prop) (c : Cache) (i : BufNr) (b : Nat) : Prop where
  stores : Stores allowed c
  listed : Listed c [i]
  blocknr : (c.bufTable i).bBlocknr = b

/-- Nobody holds a buffer, and the cache shows the array. -/
structure Rest (c : Cache) (array : Nat → Word) : Prop where
  coherent : Coherent c array
  listed : Listed c []

/-- The block is on the disk; block 0 is not read through the cache. -/
def Inside (c : Cache) (b : Nat) : Prop :=
  1 ≤ b ∧ b * blockSize + blockSize ≤ c.rootfsDiskSize.toNat

theorem inside_of_size {c c' : Cache} {b : Nat} (size : c'.rootfsDiskSize = c.rootfsDiskSize)
    (inside : Inside c b) : Inside c' b := by
  rw [Inside, size]
  exact inside

section Blocks

variable {c : Cache} {allowed : Nat → List Word → Prop} {array : Nat → Word} {i : BufNr} {b : Nat}

theorem Idle.mono {other : Nat → List Word → Prop} (idle : Idle allowed c)
    (more : ∀ b words, allowed b words → other b words) : Idle other c :=
  ⟨idle.stores.mono more, idle.listed⟩

/-- **Getting a block** that is on the disk. -/
theorem Idle.get (idle : Idle allowed c) (inside : Inside c b) :
    ∃ i c', getBlockBuffer c b .rootfs = some (some i, c') ∧ Held allowed c' i b ∧
      Took c allowed [] b i c' := by
  obtain ⟨i, c', got, took⟩ := getBlockBuffer_took idle.stores idle.listed (by decide) inside.2
    fun i member => absurd member List.not_mem_nil
  exact ⟨i, c', got, ⟨took.stores, took.listed, took.blocknr⟩, took⟩

theorem Held.words (held : Held allowed c i b) (positive : 1 ≤ b) :
    allowed b (slice (c.bufTable i).block 0 blockSize) := by
  have words := held.stores.contents i (by rw [held.blocknr]; omega)
  rwa [held.blocknr] at words

/-- **Putting it back** as it is. -/
theorem Held.put (held : Held allowed c i b) :
    ∃ c', putBlockBuffer c i = some c' ∧ Idle allowed c' ∧ SameBlocks c c' := by
  obtain ⟨c', put, gave⟩ : ∃ c', putBlockBuffer c i = some c' ∧ Gave c [] c' :=
    putBlockBuffer_gave held.listed List.mem_cons_self (by simp) List.nodup_nil (by simp)
  exact ⟨c', put, ⟨gave.same.stores held.stores, gave.listed⟩, gave.same⟩

theorem Listed.of_links {c c' : Cache} {out : List BufNr} (listed : Listed c out)
    (links : c'.links = c.links) : Listed c' out := by
  obtain ⟨nodup, cells, linked, complement⟩ := listed
  exact ⟨nodup, cells, links ▸ linked, complement⟩

theorem Held.stain (held : Held allowed c i b) (change : (Nat → Word) → Nat → Word)
    (may : allowed b (slice (change (c.bufTable i).block) 0 blockSize)) :
    Held allowed (c.updateBuf i fun buf => { buf with block := change buf.block }) i b := by
  have stores : Stores allowed (c.updateBuf i fun buf =>
      { buf with block := change (c.bufTable i).block }) :=
    held.stores.stain (by rw [held.blocknr]; exact may)
  refine ⟨stores, held.listed.of_links (links_updateBuf _ _ _ rfl rfl), ?_⟩
  rw [updateBuf_self]
  exact held.blocknr

/-- **New words in the buffer.** Until it is put back as dirty, nothing is known of the block. -/
theorem Held.change (held : Held allowed c i b) (change : (Nat → Word) → Nat → Word) :
    Held (update allowed b fun _ => True)
      (c.updateBuf i fun buf => { buf with block := change buf.block }) i b := by
  have more (b' : Nat) (words : List Word) (may : allowed b' words) :
      update allowed b (fun _ => True) b' words := by
    by_cases here : b' = b
    · rw [here, update_self]
      trivial
    · rwa [update_of_ne here]
  have looser : Held (update allowed b fun _ => True) c i b :=
    ⟨held.stores.mono more, held.listed, held.blocknr⟩
  refine looser.stain change ?_
  rw [update_self]
  trivial

/-- **Putting it back dirty**: the block has the words of the buffer. -/
theorem Held.putDirt (held : Held allowed c i b) (positive : 1 ≤ b) (new : List Word → Prop)
    (may : new (slice (c.bufTable i).block 0 blockSize)) :
    ∃ c', putBlockBufferDirt c i = some c' ∧ Idle (update allowed b new) c' ∧
      SameBlocks (c.updateBuf i fun buf => { buf with bDirt := true }) c' := by
  have used : (c.bufTable i).bBlocknr ≠ 0 := by
    rw [held.blocknr]
    omega
  have assigned : Assigned c i (c.bufTable i).block
      (c.updateBuf i fun buf => { buf with bDirt := true }) :=
    ⟨by rw [updateBuf_self], fun j apart => updateBuf_of_ne _ _ apart, rfl, rfl⟩
  have stores : Stores (update allowed (c.bufTable i).bBlocknr new) _ :=
    held.stores.assign used assigned may
  rw [held.blocknr] at stores
  have dirty : Held (update allowed b new) (c.updateBuf i fun buf => { buf with bDirt := true }) i b :=
    ⟨stores, held.listed.of_links (links_updateBuf _ _ _ rfl rfl),
      (assigned.blocknr i).trans held.blocknr⟩
  exact dirty.put

theorem Stores.get_outside (stores : Stores allowed c)
    (outside : c.rootfsDiskSize.toNat ≤ b * blockSize % wordSize) (positive : b ≠ 0)
    {result : Option BufNr × Cache} (got : getBlockBuffer c b .rootfs = some result) :
    result.1 = none := by
  have absent : (bufSlots.find? fun i => (c.bufTable i).bBlocknr = b) = none :=
    List.find?_eq_none.mpr fun i _ here => by
      have here : (c.bufTable i).bBlocknr = b := by simpa using here
      have inside := stores.range i (by rw [here]; exact positive)
      have least := Nat.mod_le (b * blockSize) wordSize
      rw [here] at inside
      unfold blockSize at *
      omega
  unfold getBlockBuffer at got
  rw [absent] at got
  cases rear : c.rear with
  | none =>
    simp only [dequeueBuf, rear] at got
    obtain rfl := Option.some.inj got
    rfl
  | some i =>
    have same := SameBlocks.setLinks c (c.links.takeRear i)
    have cleaned := (same.stores stores).writeBack_cleaned i .rootfs
    simp only [dequeueBuf, rear] at got
    generalize Fs.writeBack (c.setLinks (c.links.takeRear i)) i .rootfs = c₂ at *
    have size : c₂.rootfsDiskSize = c.rootfsDiskSize := cleaned.size.trans same.size
    -- nothing is read, and the buffer goes back to the list
    have failed :
        (blockIoRead (c₂.updateBuf i fun buf => { buf with bBlocknr := b }) i .rootfs).1 = 0 := by
      simp only [blockIoRead, updateBuf_self, blkDevIoRead]
      rw [if_pos (by rw [show (c₂.updateBuf i fun buf => { buf with bBlocknr := b }).rootfsDiskSize =
        c.rootfsDiskSize from size]; exact outside)]
    generalize blockIoRead (c₂.updateBuf i fun buf => { buf with bBlocknr := b }) i .rootfs = read at *
    rw [failed, if_pos (by decide)] at got
    obtain ⟨c₃, -, rfl⟩ := map_eq_some_iff.mp got
    rfl

/-! ### One array -/

/-- Where a block is settled, it has the words of the array. -/
def settled (own : Nat → Prop) (array : Nat → Word) (b : Nat) (words : List Word) : Prop :=
  own b → ofArray array b words

theorem Held.shows {own : Nat → Prop} (held : Held (settled own array) c i b) (positive : 1 ≤ b)
    (mine : own b) : ∀ k < blockSize, (c.bufTable i).block k = array (b * blockSize + k) := by
  intro k inside
  have same := eq_of_slice_eq (held.words positive mine) inside
  rwa [Nat.zero_add] at same

theorem Rest.idle (rest : Rest c array) : Idle (ofArray array) c :=
  ⟨rest.coherent.stores, rest.listed⟩

theorem rest_initBuf (c : Cache) : Rest (initBuf c) c.rootfsDisk :=
  ⟨(initBuf_related c).coherent, (initBuf_related c).listed⟩

theorem Rest.settled (rest : Rest c array) (own : Nat → Prop) : Idle (settled own array) c :=
  rest.idle.mono fun _ _ may _ => may

theorem Idle.rest_of_settled (idle : Idle (Fs.settled (fun _ => True) array) c) : Rest c array :=
  ⟨(idle.stores.mono fun _ _ may => may trivial).coherent, idle.listed⟩

end Blocks

theorem copyWords_apart {array source : Nat → Word} {b off len k : Nat} (fits : off + len ≤ blockSize)
    (apart : k / blockSize ≠ b) : copyWords len array (b * blockSize + off) source 0 k = array k := by
  refine copyWords_outside _ _ _ _ _ ?_
  by_contra inside
  refine apart ?_
  unfold blockSize at *
  omega

theorem slice_copyWords_apart {array source : Nat → Word} {b b' off len : Nat}
    (fits : off + len ≤ blockSize)
    (apart : b' ≠ b) :
    slice (copyWords len array (b * blockSize + off) source 0) (b' * blockSize) blockSize =
      slice array (b' * blockSize) blockSize :=
  slice_congr fun k small => copyWords_apart fits (by rwa [div_blockSize small])

/-- **The disk is written to past the cache**: the other blocks stay known. -/
theorem Idle.writeDisk {c : Cache} {own : Nat → Prop} {array words : Nat → Word} {b off len : Nat}
    (idle : Idle (settled own array) c) (other : ¬ own b) (fits : off + len ≤ blockSize) :
    Idle (settled own array)
      { c with rootfsDisk := copyWords len c.rootfsDisk (b * blockSize + off) words 0 } := by
  obtain ⟨⟨range, unique, dirty, device, contents, disk⟩, listed⟩ := idle
  refine ⟨⟨range, unique, dirty, device, contents, fun b' clean mine => ?_⟩,
    listed.of_links (Links.ext rfl rfl rfl rfl)⟩
  have apart : b' ≠ b := fun same => other (same ▸ mine)
  exact (slice_copyWords_apart fits apart).trans (disk b' clean mine)

/-! ### In programs over the volume -/

section Programs

variable {v : Volume} {allowed : Nat → List Word → Prop} {array : Nat → Word} {i : BufNr}
  {blocknr : Word}
variable {b : Nat}

theorem readBlock_run : readBlock i v = some ((v.cache.bufTable i).block, v) := rfl

theorem changeBlock_run {change : (Nat → Word) → Nat → Word} : changeBlock i change v =
    some (⟨⟩, { v with
      cache := v.cache.updateBuf i fun buf => { buf with block := change buf.block } }) := rfl

theorem readIno_run {ino : InodeNr} : readIno ino v = some (v.inodeTable ino, v) := rfl

theorem updateInode_run {ino : InodeNr} {change : Inode → Inode} :
    updateInode ino change v = some (⟨⟩, v.updateInode ino change) := rfl

theorem derefSb_run : derefSb (some .rootfs) v = some (v.rootSb, v) := rfl

theorem getBlock_got {c' : Cache}
    (got : getBlockBuffer v.cache blocknr.toNat .rootfs = some (some i, c')) :
    getBlock blocknr (some .rootfs) v = some (some i, { v with cache := c' }) := by
  simp only [getBlock, blockDevice, got, bind_eq_bind, bind_some]

theorem derefBlock_got {c' : Cache}
    (got : getBlockBuffer v.cache blocknr.toNat .rootfs = some (some i, c')) :
    derefBlock blocknr (some .rootfs) v = some (i, { v with cache := c' }) := by
  rw [derefBlock, Prog.bind_run (getBlock_got got)]
  rfl

theorem getBlock_idle (idle : Idle allowed v.cache) (inside : Inside v.cache blocknr.toNat) :
    ∃ i c', getBlock blocknr (some .rootfs) v = some (some i, { v with cache := c' }) ∧
      Held allowed c' i blocknr.toNat ∧ Took v.cache allowed [] blocknr.toNat i c' := by
  obtain ⟨i, c', got, held, took⟩ := idle.get inside
  exact ⟨i, c', getBlock_got got, held, took⟩

theorem derefBlock_idle (idle : Idle allowed v.cache) (inside : Inside v.cache blocknr.toNat) :
    ∃ i c', derefBlock blocknr (some .rootfs) v = some (i, { v with cache := c' }) ∧
      Held allowed c' i blocknr.toNat ∧ Took v.cache allowed [] blocknr.toNat i c' := by
  obtain ⟨i, c', got, held, took⟩ := idle.get inside
  exact ⟨i, c', derefBlock_got got, held, took⟩

section

variable (held : Held allowed v.cache i b)
include held

theorem putBlock_held :
    ∃ c', putBlock i v = some (⟨⟩, { v with cache := c' }) ∧ Idle allowed c' ∧
      SameBlocks v.cache c' := by
  obtain ⟨c', put, idle, same⟩ := held.put
  refine ⟨c', ?_, idle, same⟩
  simp only [putBlock, put, map_some]

theorem putBlockDirt_held (positive : 1 ≤ b) (new : List Word → Prop)
    (may : new (slice (v.cache.bufTable i).block 0 blockSize)) :
    ∃ c', putBlockDirt i v = some (⟨⟩, { v with cache := c' }) ∧
      Idle (update allowed b new) c' ∧
      SameBlocks (v.cache.updateBuf i fun buf => { buf with bDirt := true }) c' := by
  obtain ⟨c', put, idle, same⟩ := held.putDirt positive new may
  refine ⟨c', ?_, idle, same⟩
  simp only [putBlockDirt, put, map_some]

/-- **Changed and put back dirty.** -/
theorem rewriteBlock_held (positive : 1 ≤ b) (change : (Nat → Word) → Nat → Word)
    (new : List Word → Prop) (may : new (slice (change (v.cache.bufTable i).block) 0 blockSize)) :
    ∃ c', putBlockDirt i { v with cache := v.cache.updateBuf i fun buf =>
        { buf with block := change buf.block } } = some (⟨⟩, { v with cache := c' }) ∧
      Idle (update allowed b new) c' ∧
      SameBlocks ((v.cache.updateBuf i fun buf => { buf with block := change buf.block }).updateBuf i
        fun buf => { buf with bDirt := true }) c' := by
  have may' : new (slice ((v.cache.updateBuf i fun buf =>
      { buf with block := change buf.block }).bufTable i).block 0 blockSize) := by
    rw [updateBuf_self]
    exact may
  obtain ⟨c', put, idle, same⟩ := putBlockDirt_held (v := { v with
      cache := v.cache.updateBuf i fun buf => { buf with block := change buf.block } })
    (held.change change) positive new may'
  rw [update_idem] at idle
  exact ⟨c', put, idle, same⟩

end

/-- **A settled block is rewritten.** -/
theorem rewriteBlock_settled {own : Nat → Prop} (held : Held (settled own array) v.cache i b)
    (positive : 1 ≤ b) (change : (Nat → Word) → Nat → Word) :
    ∃ c', putBlockDirt i { v with cache := v.cache.updateBuf i fun buf =>
        { buf with block := change buf.block } } = some (⟨⟩, { v with cache := c' }) ∧
      Idle (settled own (copyWords blockSize array (b * blockSize)
        (change (v.cache.bufTable i).block) 0)) c' ∧
      c'.rootfsDiskSize = v.cache.rootfsDiskSize := by
  obtain ⟨c', put, idle, same⟩ := rewriteBlock_held held positive change
    (fun words => words = slice (change (v.cache.bufTable i).block) 0 blockSize) rfl
  refine ⟨c', put, idle.mono fun b' words may mine => ?_, same.size⟩
  by_cases here : b' = b
  · subst here
    rw [update_self] at may
    exact may.trans (slice_copyWords ..).symm
  · rw [update_of_ne here] at may
    exact (may mine).trans (slice_copyBlock_of_ne _ _ here).symm

theorem copyBlock_part {array block words : Nat → Word} {b off len : Nat} (fits : off + len ≤ blockSize)
    (shows : ∀ k < blockSize, block k = array (b * blockSize + k)) :
    copyWords blockSize array (b * blockSize) (copyWords len block off words 0) 0 =
      copyWords len array (b * blockSize + off) words 0 := by
  funext a
  by_cases here : b * blockSize ≤ a ∧ a < b * blockSize + blockSize
  · obtain ⟨k, rfl⟩ := Nat.exists_eq_add_of_le here.1
    rw [copyWords_inside _ _ _ _ _ (by omega), Nat.zero_add]
    by_cases part : off ≤ k ∧ k < off + len
    · obtain ⟨j, rfl⟩ := Nat.exists_eq_add_of_le part.1
      rw [copyWords_inside _ _ _ _ _ (by omega), ← Nat.add_assoc, copyWords_inside _ _ _ _ _ (by omega)]
    · rw [copyWords_outside _ _ _ _ _ (by omega), copyWords_outside _ _ _ _ _ (by omega)]
      exact shows k (by omega)
  · rw [copyWords_outside _ _ _ _ _ (by omega), copyWords_outside _ _ _ _ _ (by omega)]

end Programs

end Winix.Fs
