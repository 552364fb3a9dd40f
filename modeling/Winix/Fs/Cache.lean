/-
**The block cache.**

`fs/cache.c` and the block device of `fs/rootfs.c`. The contents of a block are on the disk or in one
of `LRU_LEN` buffers. Buffers nobody holds are on a doubly linked list, least recently used at the
rear; a block that is not in memory takes the buffer at the rear, whose old contents are written back
if they are dirty.

`Winix.Fs.Flat` says what all of this amounts to: a flat array of words.
-/

import Winix.Fs.Types
import Winix.Lib.Memory
import Winix.Lib.Links

namespace Winix.Fs

open Kernel Lib Function

/-! ### Buffers -/

/-- `LRU_LEN`. -/
abbrev lruLen : Nat := 4

/-- A pointer into `buf_table`. -/
abbrev BufNr := Fin lruLen

/-- The devices whose blocks the buffers hold. The terminals have `dev_read` and `dev_write` too,
but they are read and written past the cache. -/
inductive Device
  | rootfs
  deriving DecidableEq, Repr

/-- `struct block_buffer`. -/
structure BlockBuffer where
  block : Nat → Word
  prev : Option BufNr
  next : Option BufNr
  bBlocknr : Nat
  bDev : Option Device
  bDirt : Bool
  bCount : Int

/-- The buffers, the two ends of `lru_cache`, and the disk. -/
structure Cache where
  bufTable : BufNr → BlockBuffer
  rear : Option BufNr
  front : Option BufNr
  rootfsDisk : Nat → Word
  rootfsDiskSize : Word

/-- `for (i = 0; i < LRU_LEN; i++)`. -/
def bufSlots : List BufNr := List.finRange lruLen

namespace Cache

/-- Assign fields of one buffer. -/
def updateBuf (c : Cache) (i : BufNr) (f : BlockBuffer → BlockBuffer) : Cache :=
  { c with bufTable := update c.bufTable i (f (c.bufTable i)) }

/-- The pointers of the list. -/
def links (c : Cache) : Links BufNr where
  next i := (c.bufTable i).next
  prev i := (c.bufTable i).prev
  rear := c.rear
  front := c.front

/-- Assign the pointers of the list. -/
def setLinks (c : Cache) (d : Links BufNr) : Cache :=
  { c with
    bufTable := fun i => { c.bufTable i with next := d.next i, prev := d.prev i }
    rear := d.rear
    front := d.front }

end Cache

/-! ### The block device -/

/-- How often `while (count-- > 0)` runs with `int count = n`. -/
def signedLoop (n : Nat) : Nat := if n < 2 ^ 31 then n else 0

section

variable (c : Cache)

/-- The part of `len` words at `off` that is on the disk, as both device operations compute it. -/
def onDisk (off len : Nat) : Nat :=
  if c.rootfsDiskSize.toNat < (off + len) % wordSize then c.rootfsDiskSize.toNat - off else len

/-- `blk_dev_io_read`: the number of words, and the target. -/
def blkDevIoRead (buf : Nat → Word) (off len : Nat) : Nat × (Nat → Word) :=
  if c.rootfsDiskSize.toNat ≤ off then (0, buf)
  else (onDisk c off len, copyWords (signedLoop (onDisk c off len)) buf 0 c.rootfsDisk off)

/-- `blk_dev_io_write`. -/
def blkDevIoWrite (buf : Nat → Word) (off len : Nat) : Nat × Cache :=
  if c.rootfsDiskSize.toNat ≤ off then (0, c)
  else (onDisk c off len,
    { c with rootfsDisk := copyWords (signedLoop (onDisk c off len)) c.rootfsDisk off buf 0 })

/-- `block_io(tbuf, dev, READING)`. -/
def blockIoRead (i : BufNr) (_dev : Device) : Nat × Cache :=
  let off := (c.bufTable i).bBlocknr * blockSize % wordSize
  let (ret, block) := blkDevIoRead c (c.bufTable i).block off blockSize
  (ret, c.updateBuf i fun buf => { buf with block })

/-- `block_io(tbuf, dev, WRITING)`. -/
def blockIoWrite (i : BufNr) (_dev : Device) : Nat × Cache :=
  let off := (c.bufTable i).bBlocknr * blockSize % wordSize
  blkDevIoWrite c (c.bufTable i).block off blockSize

/-! ### The list and the cache -/

/-- `rm_lru`. -/
def rmLru (buffer : BufNr) : Cache := c.setLinks (c.links.remove buffer)

/-- `dequeue_buf`: the buffer at the rear. -/
def dequeueBuf : Option BufNr × Cache :=
  match c.rear with
  | none => (none, c)
  | some rear => (some rear, c.setLinks (c.links.takeRear rear))

/-- `enqueue_buf`. It writes through the front pointer; on an empty list the machine does not come
back. -/
def enqueueBuf (tbuf : BufNr) : Option Cache :=
  match c.front with
  | none => none
  | some front => some (c.setLinks (c.links.addFront front tbuf))

/-- `put_block_buffer`. -/
def putBlockBuffer (tbuf : BufNr) : Option Cache :=
  (enqueueBuf c tbuf).map fun c => c.updateBuf tbuf fun buf =>
    { buf with bCount := if buf.bCount - 1 ≤ 0 then 0 else buf.bCount - 1 }

/-- `put_block_buffer_dirt`. -/
def putBlockBufferDirt (tbuf : BufNr) : Option Cache :=
  putBlockBuffer (c.updateBuf tbuf fun buf => { buf with bDirt := true }) tbuf

/-- `if (tbuf->b_dirt) { block_io(tbuf, dev, WRITING); tbuf->b_dirt = false; }`. -/
def writeBack (i : BufNr) (dev : Device) : Cache :=
  if (c.bufTable i).bDirt then
    (blockIoWrite c i dev).2.updateBuf i fun buf => { buf with bDirt := false }
  else c

/-- `get_block_buffer`: the buffer, or null. -/
def getBlockBuffer (blocknr : Nat) (dev : Device) : Option (Option BufNr × Cache) :=
  match bufSlots.find? fun i => (c.bufTable i).bBlocknr = blocknr with
  | some i =>
    some (some i, (rmLru c i).updateBuf i fun buf => { buf with bCount := buf.bCount + 1 })
  | none =>
    -- not in memory
    match dequeueBuf c with
    | (none, c) => some (none, c)
    | (some i, c) =>
      let c := (writeBack c i dev).updateBuf i fun buf => { buf with bBlocknr := blocknr }
      let (ret, c) := blockIoRead c i dev
      if ret ≠ blockSize then (enqueueBuf c i).map fun c => (none, c)
      else
        some (some i, c.updateBuf i fun buf =>
          { buf with
            bBlocknr := blocknr, next := none, prev := none, bDirt := false, bDev := some dev
            bCount := 1 })

/-- One round of `flush_all_buffer`; a dirty buffer without a device would be a fault. -/
def flushBuf (i : BufNr) : Option Cache :=
  if (c.bufTable i).bDirt then (c.bufTable i).bDev.map fun dev => writeBack c i dev
  else some c

/-- `flush_all_buffer`. -/
def flushAllBuffer : Option Cache := bufSlots.foldlM flushBuf c

end

/-- One round of `init_buf`: the buffer is cleared and put in front of the one before it. -/
def initOne (state : Cache × Option BufNr) (i : BufNr) : Cache × Option BufNr :=
  let (c, prevbuf) := state
  let c := c.updateBuf i fun _ => ⟨fun _ => 0#32, none, none, 0, none, false, 0⟩
  match prevbuf with
  | none => ({ c with front := some i, rear := some i }, some i)
  | some prev =>
    let c := c.updateBuf prev fun buf => { buf with next := some i }
    let c := c.updateBuf i fun buf => { buf with prev := some prev }
    ({ c with front := some i }, some i)

/-- `init_buf`. -/
def initBuf (c : Cache) : Cache := (bufSlots.foldl initOne (c, none)).1

/-! ### What the operations touch -/

section Fields

variable (c : Cache) (i j : BufNr) (f : BlockBuffer → BlockBuffer) (d : Links BufNr)

@[simp] theorem updateBuf_self : (c.updateBuf i f).bufTable i = f (c.bufTable i) :=
  update_self ..

theorem updateBuf_of_ne {i j : BufNr} (ne : j ≠ i) : (c.updateBuf i f).bufTable j = c.bufTable j :=
  update_of_ne ne ..

/-- A change that keeps a field. -/
theorem updateBuf_field {β : Type*} (field : BlockBuffer → β) {f : BlockBuffer → BlockBuffer}
    (keeps : field (f (c.bufTable i)) = field (c.bufTable i)) :
    field ((c.updateBuf i f).bufTable j) = field (c.bufTable j) := by
  by_cases here : j = i
  · rw [here, updateBuf_self, keeps]
  · rw [updateBuf_of_ne c f here]

@[simp] theorem links_setLinks : (c.setLinks d).links = d := rfl

theorem links_updateBuf (next : (f (c.bufTable i)).next = (c.bufTable i).next)
    (prev : (f (c.bufTable i)).prev = (c.bufTable i).prev) : (c.updateBuf i f).links = c.links := by
  have nexts : (c.updateBuf i f).links.next = c.links.next :=
    funext fun j => updateBuf_field c i j BlockBuffer.next next
  have prevs : (c.updateBuf i f).links.prev = c.links.prev :=
    funext fun j => updateBuf_field c i j BlockBuffer.prev prev
  exact Links.ext nexts prevs rfl rfl

end Fields

/-! ### Words of a block -/

theorem div_blockSize {b k : Nat} (inside : k < blockSize) : (b * blockSize + k) / blockSize = b := by
  unfold blockSize at *
  omega

section

variable (c : Cache) (buf : Nat → Word) {off len : Nat} (starts : off < c.rootfsDiskSize.toNat)
  (inside : off + len ≤ c.rootfsDiskSize.toNat) (small : len ≤ blockSize)
include inside small

/-- Neither `blk_dev_io_read` nor `blk_dev_io_write` cuts off a part of a block that is on the disk. -/
theorem onDisk_inside : onDisk c off len = len ∧ signedLoop len = len := by
  have noWrap : (off + len) % wordSize = off + len :=
    Nat.mod_eq_of_lt (lt_of_le_of_lt inside c.rootfsDiskSize.isLt)
  unfold blockSize at small
  exact ⟨by rw [onDisk, noWrap, if_neg (Nat.not_lt.mpr inside)], if_pos (by omega)⟩

include starts

theorem blkDevIoRead_inside :
    blkDevIoRead c buf off len = (len, copyWords len buf 0 c.rootfsDisk off) := by
  obtain ⟨all, signed⟩ := onDisk_inside c inside small
  rw [blkDevIoRead, if_neg (Nat.not_le.mpr starts), all, signed]

theorem blkDevIoWrite_inside : blkDevIoWrite c buf off len =
    (len, { c with rootfsDisk := copyWords len c.rootfsDisk off buf 0 }) := by
  obtain ⟨all, signed⟩ := onDisk_inside c inside small
  rw [blkDevIoWrite, if_neg (Nat.not_le.mpr starts), all, signed]

end

end Winix.Fs
