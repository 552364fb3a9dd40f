/-
**Reading a file block by block.**

`root_fs_read` goes over the blocks from the position to the end of what is asked for. It skips the
holes, cuts what it reads of a block at the end of the block and at the size of the file, and stops
at a block of which it reads nothing.

* `readPieces`: the parts of blocks that are read, which depend on the inode only;
* `readFrom_run`: one block, through the cache or past it (`Feeds`);
* `readBlocks_run`: the whole loop.
-/

import Winix.Fs.Counts
import Winix.Fs.Words
import Winix.Kernel.Boot

namespace Winix.Fs

open Kernel Lib Function List BitVec

/-! ### Pieces of blocks -/

/-- A part of a block. -/
structure Piece where
  bnr : Nat
  off : Nat
  len : Nat
  deriving DecidableEq, Repr

/-- What is read of a block, if the offset is not behind the size. -/
def pieceLen (size off count : Nat) : Nat :=
  if off + min count (blockSize - off) < size then min count (blockSize - off) else size - off

/-- The pieces that are read of the blocks to go. The last one may be empty. -/
def readPieces (zone : Nat → Word) (size : Nat) : Nat → Nat → Nat → Nat → List Piece
  | 0, _, _, _ => []
  | left + 1, index, off, count =>
    if zone index = 0#32 then readPieces zone size left (index + 1) off count
    else ⟨(zone index).toNat, off, pieceLen size off count⟩ ::
      if pieceLen size off count = 0 then []
      else readPieces zone size left (index + 1) 0 (count - pieceLen size off count)

/-- The number of words in the pieces. -/
def total (pieces : List Piece) : Nat := (pieces.map Piece.len).sum

/-- The words in the pieces. -/
def contents (src : Nat → Word) (pieces : List Piece) : List Word :=
  pieces.flatMap fun piece => slice src (piece.bnr * blockSize + piece.off) piece.len

/-- What the caller gets. -/
def transfers (who : ProcNr) (data : Word) : List Piece → List Transfer
  | [] => []
  | piece :: rest => ⟨who, data, piece.len⟩ :: transfers who (data + BitVec.ofNat 32 piece.len) rest

/-- The number of words that are moved. -/
def transferred (log : List Transfer) : Nat := (log.map Transfer.len).sum

section Pieces

variable {zone : Nat → Word} {size left index off count : Nat} {piece : Piece} {pieces : List Piece}

@[simp] theorem total_cons : total (piece :: pieces) = piece.len + total pieces := rfl

@[simp] theorem length_contents (src : Nat → Word) : (contents src pieces).length = total pieces := by
  simp [contents, total, length_flatMap]

theorem contents_cons (src : Nat → Word) : contents src (piece :: pieces) =
    slice src (piece.bnr * blockSize + piece.off) piece.len ++ contents src pieces := rfl

@[simp] theorem transferred_transfers (who : ProcNr) (data : Word) :
    transferred (transfers who data pieces) = total pieces := by
  induction pieces generalizing data with
  | nil => rfl
  | cons piece pieces ih =>
    show piece.len + transferred (transfers who (data + BitVec.ofNat 32 piece.len) pieces) = _
    rw [ih, total_cons]

@[simp] theorem transferred_append (log more : List Transfer) :
    transferred (log ++ more) = transferred log + transferred more := by
  simp [transferred]

theorem pieceLen_le_count (size off count : Nat) : pieceLen size off count ≤ count := by
  unfold pieceLen
  split <;> omega

theorem pieceLen_le_block (size off count : Nat) : pieceLen size off count ≤ blockSize - off := by
  unfold pieceLen
  split <;> omega

theorem pieceLen_le_size : pieceLen size off count ≤ size - off := by
  unfold pieceLen
  split <;> omega

theorem readPieces_hole (hole : zone index = 0#32) :
    readPieces zone size (left + 1) index off count = readPieces zone size left (index + 1) off count :=
  if_pos hole

theorem readPieces_empty (block : zone index ≠ 0#32) (empty : pieceLen size off count = 0) :
    readPieces zone size (left + 1) index off count = [⟨(zone index).toNat, off, 0⟩] := by
  rw [readPieces, if_neg block, if_pos empty, empty]

theorem readPieces_block (block : zone index ≠ 0#32) (some : pieceLen size off count ≠ 0) :
    readPieces zone size (left + 1) index off count =
      ⟨(zone index).toNat, off, pieceLen size off count⟩ ::
        readPieces zone size left (index + 1) 0 (count - pieceLen size off count) := by
  rw [readPieces, if_neg block, if_neg some]

theorem total_readPieces_le : total (readPieces zone size left index off count) ≤ count := by
  induction left generalizing index off count with
  | zero => exact Nat.zero_le _
  | succ left ih =>
    by_cases hole : zone index = 0#32
    · rw [readPieces_hole hole]
      exact ih
    · by_cases empty : pieceLen size off count = 0
      · rw [readPieces_empty hole empty]
        exact Nat.zero_le _
      · have least := pieceLen_le_count size off count
        rw [readPieces_block hole empty, total_cons]
        have rest : total (readPieces zone size left (index + 1) 0 (count - pieceLen size off count)) ≤
            count - pieceLen size off count := ih
        dsimp only
        omega

/-- No more is read than there is up to the last block, if only holes follow. -/
theorem total_le_blocks (last left index off count : Nat) (small : off < blockSize)
    (holes : ∀ k, index ≤ k → last ≤ k → k < index + left → zone k = 0#32) :
    total (readPieces zone size left index off count) ≤
      last * blockSize - (index * blockSize + off) := by
  induction left generalizing index off count with
  | zero => exact Nat.zero_le _
  | succ left ih =>
    by_cases hole : zone index = 0#32
    · rw [readPieces_hole hole]
      have rest := ih (index + 1) off count small fun k least behind most =>
        holes k (by omega) behind (by omega)
      rw [Nat.add_mul] at rest
      omega
    · have before : index < last := by
        by_contra behind
        exact hole (holes index (Nat.le_refl _) (by omega) (by omega))
      have room := Nat.mul_le_mul_right blockSize before
      by_cases empty : pieceLen size off count = 0
      · rw [readPieces_empty hole empty]
        exact Nat.zero_le _
      · have most := pieceLen_le_block size off count
        have rest := ih (index + 1) 0 (count - pieceLen size off count) (by decide)
          fun k least behind most => holes k (by omega) behind (by omega)
        rw [readPieces_block hole empty, total_cons]
        rw [Nat.succ_mul] at rest room
        dsimp only
        omega

end Pieces

/-! ### One block -/

/-- The blocks that the file system knows have the words of `src`: on the disk, if the file is read
past the cache, and as the cache shows them otherwise. -/
def Feeds (direct : Bool) (own : Nat → Prop) (src : Nat → Word) (c : Cache) : Prop :=
  if direct then c.rootfsDisk = src else Idle (settled own src) c

/-- A hole, or a block that is known. -/
def Placed (own : Nat → Prop) (c : Cache) (bnr : Word) : Prop :=
  bnr = 0#32 ∨ (Inside c bnr.toNat ∧ own bnr.toNat)

/-- Another cache and another memory. -/
def World.fed (w : World) (cache : Cache) (memory : Memory) : World :=
  { w with
    kernel := { w.kernel with memory }
    files := { w.files with vol := { w.files.vol with cache } } }

/-- … and another position. -/
def World.moved (w : World) (f : FilpNr) (cache : Cache) (memory : Memory) (r : Word) : World :=
  { w with
    kernel := { w.kernel with memory }
    files := { w.files with
      vol := { w.files.vol with cache }
      fdTable := update w.files.fdTable f
        { w.files.fdTable f with filpPos := (w.files.fdTable f).filpPos + r } } }

section Steps

variable {w : World} {who : ProcNr} {f : FilpNr} {ino : InodeNr} {filp : Filp} {direct : Bool}
  {own : Nat → Prop} {src : Nat → Word} {cache : Cache} {memory : Memory} {r : Word}
variable {α : Type} {left index : Nat} {off count data ret : Word}

theorem moved_moved {cache' : Cache} {memory' : Memory} {r' : Word} :
    (w.moved f cache memory r).moved f cache' memory' r' = w.moved f cache' memory' (r + r') := by
  simp only [World.moved, update_self, update_idem, add_assoc]

theorem moved_zero (same : w.files.vol.cache = cache) (same' : w.kernel.memory = memory) :
    w.moved f cache memory 0#32 = w := by
  simp only [World.moved, BitVec.add_zero, update_eq_self, ← same, ← same']

theorem moved_filp : (w.moved f cache memory r).files.fdTable f =
    { w.files.fdTable f with filpPos := (w.files.fdTable f).filpPos + r } := update_self ..

theorem Placed.of_size {c c' : Cache} {bnr : Word} (size : c'.rootfsDiskSize = c.rootfsDiskSize)
    (placed : Placed own c bnr) : Placed own c' bnr :=
  placed.imp_right fun ⟨inside, mine⟩ => ⟨inside_of_size size inside, mine⟩

theorem readLen_toNat {iSize off : Word} (count : Word) (small : off.toNat ≤ blockSize)
    (within : off.toNat ≤ iSize.toNat) :
    (readLen iSize off count).toNat = pieceLen iSize.toNat off.toNat count.toNat := by
  unfold readLen pieceLen blockSize at *
  have room : (BitVec.ofNat 32 1024 - off).toNat = 1024 - off.toNat :=
    toNat_sub_of_le (le_def.mpr small)
  have cut : (if count < BitVec.ofNat 32 1024 - off then count else BitVec.ofNat 32 1024 - off).toNat =
      min count.toNat (1024 - off.toNat) := by
    split <;> rename_i less <;> rw [lt_def, room] at less <;> omega
  dsimp only
  generalize (if count < BitVec.ofNat 32 1024 - off then count else BitVec.ofNat 32 1024 - off) =
    len at *
  have sum : (off + len).toNat = off.toNat + len.toNat :=
    toNat_add_of_lt (by omega)
  rw [← cut]
  by_cases before : off.toNat + len.toNat < iSize.toNat
  · rw [if_pos before, if_pos (lt_def.mpr (sum ▸ before))]
  · rw [if_neg before, if_neg (fun less => before (sum ▸ lt_def.mp less))]
    exact toNat_sub_of_le (le_def.mpr within)

theorem onDisks_ran {x : VolM α} {a : α} {vol : Volume} (ran : x w.files.vol = some (a, vol)) :
    onDisks x w = ([], some (a, { w with files := { w.files with vol } })) :=
  Prod.ext rfl (onDisks_run ran)

theorem readWorld_bind {next : World → AccessM α} : (readWorld >>= next) w = next w w := rfl

theorem readIno_bind {next : Inode → AccessM α} :
    (onDisks (readIno ino) >>= next) w = next (w.files.vol.inodeTable ino) w := rfl

theorem readFilp_bind {next : Filp → AccessM α} :
    (onFiles (readFilp f) >>= next) w = next (w.files.fdTable f) w := rfl

theorem zoneAt_bind {inode : Inode} {next : Word → AccessM α} (inside : index < nrTzones) :
    (onDisks (inode.zoneAt index) >>= next) w = next (inode.iZone index) w := by
  rw [Inode.zoneAt_run inside]
  rfl

theorem place_toNat {c : Cache} {bnr off : Word} (inside : Inside c bnr.toNat)
    (small : off.toNat < blockSize) :
    (off + bnr * BitVec.ofNat 32 blockSize).toNat = bnr.toNat * blockSize + off.toNat := by
  have bound := c.rootfsDiskSize.isLt
  have last := inside.2
  unfold blockSize at *
  rw [toNat_add, toNat_mul, toNat_ofNat]
  omega

theorem part_inside {c : Cache} {bnr off len : Nat} (inside : Inside c bnr) (small : off < blockSize)
    (fits : off + len ≤ blockSize) : bnr * blockSize + off < c.rootfsDiskSize.toNat ∧
      bnr * blockSize + off + len ≤ c.rootfsDiskSize.toNat := by
  have last := inside.2
  omega

theorem readDirect_eq {data off len : Word} : readDirect who data off len w =
    ([⟨who, data, signedLoop (blkDevIoRead w.files.vol.cache (fun _ => 0#32) off.toNat len.toNat).1⟩],
      some (BitVec.ofNat 32 (blkDevIoRead w.files.vol.cache (fun _ => 0#32) off.toNat len.toNat).1,
        w.fed w.files.vol.cache (putWords w.kernel.memory data
          (signedLoop (blkDevIoRead w.files.vol.cache (fun _ => 0#32) off.toNat len.toNat).1)
          (blkDevIoRead w.files.vol.cache (fun _ => 0#32) off.toNat len.toNat).2))) := rfl

theorem readDirect_run {data bnr off len : Word} (disk : w.files.vol.cache.rootfsDisk = src)
    (inside : Inside w.files.vol.cache bnr.toNat) (small : off.toNat < blockSize)
    (fits : off.toNat + len.toNat ≤ blockSize) :
    readDirect who data (off + bnr * BitVec.ofNat 32 blockSize) len w =
      ([⟨who, data, len.toNat⟩], some (len, w.fed w.files.vol.cache
        (putList w.kernel.memory data (slice src (bnr.toNat * blockSize + off.toNat) len.toNat)))) := by
  have place := place_toNat inside small
  obtain ⟨starts, ends⟩ := part_inside inside small fits
  have part : len.toNat ≤ blockSize := by omega
  rw [readDirect_eq, place, blkDevIoRead_inside _ _ starts ends part, disk,
    (onDisk_inside _ ends part).2, ofNat_toNat, setWidth_eq, putWords_eq_putList]
  have words : (List.range len.toNat).map
      (copyWords len.toNat (fun _ => 0#32) 0 src (bnr.toNat * blockSize + off.toNat)) =
      slice src (bnr.toNat * blockSize + off.toNat) len.toNat := by
    rw [← slice_copyWords len.toNat (fun _ => 0#32) src 0]
    exact map_congr_left fun i _ => by rw [Nat.zero_add]
  rw [words]

/-- One block, through the cache: the words are those that the buffer shows, also behind its end. -/
theorem readBuffered_run (who : ProcNr) (data off len : Word) {bnr : Word}
    {allowed : Nat → List Word → Prop}
    (idle : Idle allowed w.files.vol.cache) (inside : Inside w.files.vol.cache bnr.toNat) :
    ∃ buffer c₁ c₂, Held allowed c₁ buffer bnr.toNat ∧ Idle allowed c₂ ∧
      c₂.rootfsDiskSize = w.files.vol.cache.rootfsDiskSize ∧
      readBuffered who (some .rootfs) data bnr off len w =
        ([⟨who, data, len.toNat⟩], some (len, w.fed c₂ (putWords w.kernel.memory data len.toNat
          fun i => bufWord { w.files.vol with cache := c₁ } buffer (off.toNat + i)))) := by
  obtain ⟨buffer, c₁, got, held, took⟩ := derefBlock_idle (v := w.files.vol) idle inside
  obtain ⟨c₂, put, idle₂, same⟩ := putBlock_held (v := { w.files.vol with cache := c₁ }) held
  refine ⟨buffer, c₁, c₂, held, idle₂, same.size.trans took.size, ?_⟩
  have write : writeUser who data len.toNat
      (fun i => bufWord { w.files.vol with cache := c₁ } buffer (off.toNat + i))
      (w.fed c₁ w.kernel.memory) =
        ([⟨who, data, len.toNat⟩], some (⟨⟩, w.fed c₁ (putWords w.kernel.memory
        data len.toNat fun i =>
          bufWord { w.files.vol with cache := c₁ } buffer (off.toNat + i)))) := rfl
  rw [readBuffered, Logged.bind_quiet (onDisks_ran got), readWorld_bind]
  refine (Logged.bind_ran write).trans ?_
  rw [Logged.bind_quiet (onDisks_ran put)]
  rfl

/-- **One block.** -/
theorem readFrom_run (who : ProcNr) (data : Word) {bnr off len : Word}
    (feeds : Feeds direct own src w.files.vol.cache)
    (dev : filp.filpDev = some .rootfs) (flags : anyBit filp.filpFlags oDirect = direct)
    (inside : Inside w.files.vol.cache bnr.toNat) (mine : own bnr.toNat) (small : off.toNat < blockSize)
    (fits : off.toNat + len.toNat ≤ blockSize) :
    ∃ c, Feeds direct own src c ∧ c.rootfsDiskSize = w.files.vol.cache.rootfsDiskSize ∧
      readFrom who filp data bnr off len w =
        ([⟨who, data, len.toNat⟩], some (len, w.fed c
          (putList w.kernel.memory data (slice src (bnr.toNat * blockSize + off.toNat) len.toNat))))
            := by
  rw [readFrom, flags]
  cases direct with
  | true => exact ⟨_, feeds, rfl, readDirect_run feeds inside small fits⟩
  | false =>
    obtain ⟨buffer, c₁, c₂, held, idle, size, ran⟩ := readBuffered_run who data off len feeds inside
    refine ⟨c₂, idle, size, ?_⟩
    rw [if_neg (by decide), dev, ran, putWords_eq_putList]
    have words : (List.range len.toNat).map (fun i =>
        bufWord { w.files.vol with cache := c₁ } buffer (off.toNat + i)) =
        slice src (bnr.toNat * blockSize + off.toNat) len.toNat := by
      refine map_congr_left fun i member => ?_
      have small : off.toNat + i < blockSize := by
        have := mem_range.mp member
        omega
      rw [bufWord_block small, Nat.add_assoc]
      exact held.shows inside.1 mine _ small
    rw [words]

/-! ### The loop -/

/-- The loop over these blocks does not meet an offset behind the size, and all of them are known. -/
structure Readable (w : World) (f : FilpNr) (ino : InodeNr) (direct : Bool) (own : Nat → Prop)
    (src : Nat → Word) (left index : Nat) (off : Word) : Prop where
  feeds : Feeds direct own src w.files.vol.cache
  dev : (w.files.fdTable f).filpDev = some .rootfs
  flags : anyBit (w.files.fdTable f).filpFlags oDirect = direct
  inside : ∀ k, index ≤ k → k < index + left → k < nrTzones
  placed : ∀ k < nrTzones, Placed own w.files.vol.cache ((w.files.vol.inodeTable ino).iZone k)
  small : off.toNat < blockSize
  within : ∀ k, index ≤ k → k < index + left → (w.files.vol.inodeTable ino).iZone k ≠ 0#32 →
    off.toNat ≤ (w.files.vol.inodeTable ino).iSize.toNat

/-- The pieces that the loop reads. -/
def World.pieces (w : World) (ino : InodeNr) (left index : Nat) (off count : Word) : List Piece :=
  readPieces (w.files.vol.inodeTable ino).iZone (w.files.vol.inodeTable ino).iSize.toNat left index
    off.toNat
    count.toNat

theorem readBlocks_hole (inside : index < nrTzones)
    (hole : (w.files.vol.inodeTable ino).iZone index = 0#32) :
    readBlocks who f ino (left + 1) index off count data ret w =
      readBlocks who f ino left (index + 1) off count data ret w := by
  rw [readBlocks, readIno_bind, readFilp_bind, zoneAt_bind inside]
  exact congrFun (if_pos hole) w

theorem readBlocks_outside (behind : nrTzones ≤ index) :
    readBlocks who f ino (left + 1) index off count data ret w = ([], none) := by
  rw [readBlocks, readIno_bind, readFilp_bind, Inode.zoneAt_behind behind]
  rfl

theorem readBlocks_block {log : List Transfer} (inside : index < nrTzones)
    (block : (w.files.vol.inodeTable ino).iZone index ≠ 0#32)
    (read : readFrom who (w.files.fdTable f) data ((w.files.vol.inodeTable ino).iZone index) off
      (readLen (w.files.vol.inodeTable ino).iSize off count) w = (log, some (r, w.fed cache memory))) :
    readBlocks who f ino (left + 1) index off count data ret w =
      if r = 0#32 then (log, some ((ret + r).toInt, w.moved f cache memory r))
      else
        let rest := readBlocks who f ino left (index + 1) 0#32
          (count - readLen (w.files.vol.inodeTable ino).iSize off count) (data + r) (ret + r)
          (w.moved f cache memory r)
        (log ++ rest.1, rest.2) := by
  have moves : advancePos f r (w.fed cache memory) = ([], some (⟨⟩, w.moved f cache memory r)) := rfl
  rw [readBlocks, readIno_bind, readFilp_bind, zoneAt_bind inside, if_neg block]
  refine (Logged.bind_ran read).trans ?_
  rw [Logged.bind_quiet moves]
  by_cases stop : r = 0#32
  · rw [if_pos stop, if_pos stop]
    exact Prod.ext (append_nil _) rfl
  · rw [if_neg stop, if_neg stop]

theorem Readable.skip {off : Word} (readable : Readable w f ino direct own src (left + 1) index off) :
    Readable w f ino direct own src left (index + 1) off :=
  { readable with
    inside := fun k least most => readable.inside k (by omega) (by omega)
    within := fun k least most => readable.within k (by omega) (by omega) }

theorem Readable.next {off : Word} (readable : Readable w f ino direct own src (left + 1) index off)
    (memory : Memory) (r : Word) (feeds : Feeds direct own src cache)
    (size : cache.rootfsDiskSize = w.files.vol.cache.rootfsDiskSize) :
    Readable (w.moved f cache memory r) f ino direct own src left (index + 1) 0#32 where
  feeds := feeds
  dev := by
    rw [moved_filp]
    exact readable.dev
  flags := by
    rw [moved_filp]
    exact readable.flags
  inside k least most := readable.inside k (by omega) (by omega)
  placed k few := (readable.placed k few).of_size size
  small := by decide
  within _ _ _ _ := Nat.zero_le _

/-- **The whole loop**: the caller gets the words of the pieces. -/
theorem readBlocks_run (who : ProcNr) (count data ret : Word) {off : Word}
    (readable : Readable w f ino direct own src left index off) :
    ∃ c, Feeds direct own src c ∧ c.rootfsDiskSize = w.files.vol.cache.rootfsDiskSize ∧
      readBlocks who f ino left index off count data ret w =
        (transfers who data (w.pieces ino left index off count),
          some ((ret + BitVec.ofNat 32 (total (w.pieces ino left index off count))).toInt,
            w.moved f c
              (putList w.kernel.memory data (contents src (w.pieces ino left index off count)))
              (BitVec.ofNat 32 (total (w.pieces ino left index off count))))) := by
  induction left generalizing w index off count data ret with
  | zero =>
    refine ⟨_, readable.feeds, rfl, ?_⟩
    show ([], some (ret.toInt, w)) =
      ([], some ((ret + 0#32).toInt, w.moved f _ (putList _ data []) 0#32))
    rw [putList_nil, moved_zero rfl rfl, BitVec.add_zero]
  | succ left ih =>
    have inside := readable.inside index (Nat.le_refl _) (by omega)
    by_cases hole : (w.files.vol.inodeTable ino).iZone index = 0#32
    · obtain ⟨c, feeds, size, ran⟩ := ih count data ret readable.skip
      refine ⟨c, feeds, size, ?_⟩
      rw [readBlocks_hole inside hole, ran, World.pieces, World.pieces, readPieces_hole hole]
    · have within := readable.within index (Nat.le_refl _) (by omega) hole
      have known := (readable.placed index inside).resolve_left hole
      have len := readLen_toNat count (Nat.le_of_lt readable.small) within
      have fits :
          off.toNat + (readLen (w.files.vol.inodeTable ino).iSize off count).toNat ≤ blockSize := by
        have block := pieceLen_le_block (w.files.vol.inodeTable ino).iSize.toNat off.toNat count.toNat
        have small := readable.small
        omega
      obtain ⟨c, feeds, size, read⟩ := readFrom_run who data readable.feeds readable.dev
        readable.flags known.1 known.2 readable.small fits
      have most := pieceLen_le_count (w.files.vol.inodeTable ino).iSize.toNat off.toNat count.toNat
      have bound := count.isLt
      rw [readBlocks_block inside hole read]
      generalize same : readLen (w.files.vol.inodeTable ino).iSize off count = r at *
      by_cases stop : r = 0#32
      · have empty : pieceLen (w.files.vol.inodeTable ino).iSize.toNat off.toNat count.toNat = 0 := by
          rw [← len, stop]
          rfl
        refine ⟨c, feeds, size, ?_⟩
        rw [if_pos stop, World.pieces, readPieces_empty hole empty, stop]
        rfl
      · have some : pieceLen (w.files.vol.inodeTable ino).iSize.toNat off.toNat count.toNat ≠ 0 :=
          fun zero => stop (eq_of_toNat_eq (len.trans zero))
        obtain ⟨c', feeds', size', ran⟩ := ih (count - r) (data + r) (ret + r)
          (readable.next (putList w.kernel.memory data
            (slice src (((w.files.vol.inodeTable ino).iZone index).toNat * blockSize + off.toNat)
              r.toNat))
            r feeds size)
        refine ⟨c', feeds', size'.trans size, ?_⟩
        have fewer : (count - r).toNat = count.toNat - r.toNat :=
          toNat_sub_of_le (le_def.mpr (len ▸ most))
        have split : w.pieces ino (left + 1) index off count =
            ⟨((w.files.vol.inodeTable ino).iZone index).toNat, off.toNat, r.toNat⟩ ::
              w.pieces ino left (index + 1) 0#32 (count - r) := by
          rw [World.pieces, readPieces_block hole some, ← len, World.pieces, fewer]
          rfl
        have least : total (w.pieces ino left (index + 1) 0#32 (count - r)) ≤ count.toNat - r.toNat :=
          fewer ▸ total_readPieces_le
        have length : r = BitVec.ofNat 32 (slice src
            (((w.files.vol.inodeTable ino).iZone index).toNat * blockSize + off.toNat)
              r.toNat).length := by
          rw [length_slice, ofNat_toNat, setWidth_eq]
        have fold := @putList_append w.kernel.memory data
          (slice src (((w.files.vol.inodeTable ino).iZone index).toNat * blockSize + off.toNat) r.toNat)
          (contents src (w.pieces ino left (index + 1) 0#32 (count - r)))
          (by rw [length_slice, length_contents]; omega)
        rw [← length] at fold
        rw [if_neg stop, ran, split, moved_moved, total_cons, contents_cons, transfers, ofNat_add,
          ofNat_toNat, setWidth_eq, ← fold, add_assoc]
        rfl

end Steps

/-! ### The call -/

/-- The descriptor of a file whose blocks are known. -/
structure OpenFile (own : Nat → Prop) (w : World) (f : FilpNr) (ino : InodeNr) : Prop where
  inode : (w.files.fdTable f).filpIno = some ino
  dev : (w.files.fdTable f).filpDev = some .rootfs
  placed : ∀ k < nrTzones, Placed own w.files.vol.cache ((w.files.vol.inodeTable ino).iZone k)

/-- The block of position plus count is in the array; or the sum has wrapped around, and the loop is
empty. -/
def InZones (pos count : Word) : Prop :=
  (pos + count).toNat / blockSize < nrTzones ∨ (pos + count).toNat / blockSize < pos.toNat / blockSize

/-- The file is read past the cache. -/
def World.isDirect (w : World) (f : FilpNr) : Bool := anyBit (w.files.fdTable f).filpFlags oDirect

/-- The pieces of a read that goes up to this block. -/
def fileRead (zone : Nat → Word) (size pos count last : Nat) : List Piece :=
  readPieces zone size (last + 1 - pos / blockSize) (pos / blockSize) (pos % blockSize) count

/-- The last block of a read or a write at the position; the sum may wrap around. -/
def World.lastBlock (w : World) (f : FilpNr) (count : Word) : Nat :=
  ((w.files.fdTable f).filpPos + count).toNat / blockSize

/-- The pieces of a read at the position. -/
def World.fileRead (w : World) (f : FilpNr) (ino : InodeNr) (count : Word) : List Piece :=
  Fs.fileRead (w.files.vol.inodeTable ino).iZone (w.files.vol.inodeTable ino).iSize.toNat
    (w.files.fdTable f).filpPos.toNat count.toNat (w.lastBlock f count)

/-- The position is set. -/
def World.seek (w : World) (f : FilpNr) (pos : Word) : World :=
  { w with files := { w.files with
      fdTable := update w.files.fdTable f { w.files.fdTable f with filpPos := pos } } }

/-- A word of a file. -/
def fileWord (zone : Nat → Word) (src : Nat → Word) (i : Nat) : Word :=
  src ((zone (i / blockSize)).toNat * blockSize + i % blockSize)

section Moved

variable {w : World} {f : FilpNr} {ino : InodeNr} {own : Nat → Prop}

theorem OpenFile.moved {cache : Cache} (memory : Memory) (r : Word) (file : OpenFile own w f ino)
    (size : cache.rootfsDiskSize = w.files.vol.cache.rootfsDiskSize) :
    OpenFile own (w.moved f cache memory r) f ino := by
  refine ⟨?_, ?_, fun k inside => (file.placed k inside).of_size size⟩
  · rw [moved_filp]
    exact file.inode
  · rw [moved_filp]
    exact file.dev

theorem isDirect_moved {cache : Cache} {memory : Memory} {r : Word} :
    (w.moved f cache memory r).isDirect f = w.isDirect f := by
  rw [World.isDirect, moved_filp, World.isDirect]

end Moved

/-! ### An offset behind the size -/

section Behind

variable {w : World} {who : ProcNr} {f : FilpNr} {ino : InodeNr} {direct : Bool} {own : Nat → Prop}
  {src : Nat → Word} {left index : Nat} {off count data : Word}

theorem readLen_behind {iSize : Word} (count : Word) (small : off.toNat < blockSize)
    (behind : iSize.toNat < off.toNat) :
    readLen iSize off count = iSize - off := by
  unfold readLen
  have more : ¬ off + (if count < BitVec.ofNat 32 blockSize - off then count
      else BitVec.ofNat 32 blockSize - off) < iSize := by
    unfold blockSize at *
    split <;> bv_omega
  exact if_neg more

theorem readDirect_behind {iSize bnr : Word} (inside : Inside w.files.vol.cache bnr.toNat)
    (small : off.toNat < blockSize) (behind : iSize.toNat < off.toNat) :
    readDirect who data (off + bnr * BitVec.ofNat 32 blockSize) (iSize - off) w =
      ([⟨who, data, 0⟩], some (iSize - off, w.fed w.files.vol.cache w.kernel.memory)) := by
  have place := place_toNat inside small
  have bound := w.files.vol.cache.rootfsDiskSize.isLt
  have last := inside.2
  have len : (iSize - off).toNat = 2 ^ 32 - (off.toNat - iSize.toNat) := by
    rw [toNat_sub]
    omega
  unfold blockSize at small last
  -- the end of the read wraps around to a place on the disk
  have all : onDisk w.files.vol.cache (bnr.toNat * blockSize + off.toNat) (iSize - off).toNat =
      (iSize - off).toNat := by
    unfold onDisk wordSize blockSize
    rw [if_neg (by omega)]
  have signed : signedLoop (iSize - off).toNat = 0 := if_neg (by omega)
  have read : blkDevIoRead w.files.vol.cache (fun _ => 0#32) (bnr.toNat * blockSize + off.toNat)
      (iSize - off).toNat = ((iSize - off).toNat, fun _ => 0#32) := by
    unfold blkDevIoRead
    rw [if_neg (by unfold blockSize; omega), all, signed]
    rfl
  rw [readDirect_eq, place, read, signed, ofNat_toNat, setWidth_eq, putWords_eq_putList]
  exact congrArg (fun memory => (_, some (_, w.fed _ memory))) putList_nil

theorem readFrom_behind (who : ProcNr) (data : Word) {filp : Filp} {iSize bnr : Word}
    (feeds : Feeds direct own src w.files.vol.cache)
    (dev : filp.filpDev = some .rootfs) (flags : anyBit filp.filpFlags oDirect = direct)
    (inside : Inside w.files.vol.cache bnr.toNat) (small : off.toNat < blockSize)
    (behind : iSize.toNat < off.toNat) :
    ∃ log c memory, Feeds direct own src c ∧ c.rootfsDiskSize = w.files.vol.cache.rootfsDiskSize ∧
      readFrom who filp data bnr off (iSize - off) w = (log, some (iSize - off, w.fed c memory)) := by
  rw [readFrom, flags]
  cases direct with
  | true => exact ⟨_, _, _, feeds, rfl, readDirect_behind inside small behind⟩
  | false =>
    obtain ⟨buffer, c₁, c₂, held, idle, size, came⟩ := readBuffered_run who data off
      (iSize - off) feeds inside
    rw [← dev] at came
    exact ⟨_, c₂, _, idle, size, came⟩

/-- What has come back from blocks without an offset behind the size is the number of the words
moved. -/
theorem readBlocks_came (file : OpenFile own w f ino)
    (feeds : Feeds (w.isDirect f) own src w.files.vol.cache)
    {ret : Word} {log : List Transfer} {result : Int} {w' : World}
    (ran : readBlocks who f ino left index 0#32 count data ret w = (log, some (result, w'))) :
    result = (ret + BitVec.ofNat 32 (transferred log)).toInt := by
  induction left generalizing w index count data ret log with
  | zero =>
    cases ran
    rw [show transferred [] = 0 from rfl, BitVec.add_zero]
  | succ left ih =>
    by_cases behind : nrTzones ≤ index
    · rw [readBlocks_outside behind] at ran
      cases ran
    have inside := Nat.lt_of_not_le behind
    by_cases hole : (w.files.vol.inodeTable ino).iZone index = 0#32
    · rw [readBlocks_hole inside hole] at ran
      exact ih file feeds ran
    · have known := (file.placed index inside).resolve_left hole
      have len := readLen_toNat count (show (0#32).toNat ≤ blockSize by decide)
        (Nat.zero_le (w.files.vol.inodeTable ino).iSize.toNat)
      have most := pieceLen_le_block (w.files.vol.inodeTable ino).iSize.toNat 0 count.toNat
      obtain ⟨c, feeds', size, read⟩ := readFrom_run who data feeds file.dev rfl known.1 known.2
        (by decide)
        (show (0#32).toNat + (readLen (w.files.vol.inodeTable ino).iSize 0#32 count).toNat ≤
          blockSize by
          rw [len]; exact (Nat.zero_add _).trans_le most)
      rw [readBlocks_block inside hole read] at ran
      generalize readLen (w.files.vol.inodeTable ino).iSize 0#32 count = r at *
      have moved (log : List Transfer) :
          transferred (⟨who, data, r.toNat⟩ :: log) = r.toNat + transferred log := rfl
      split at ran
      · obtain ⟨rfl, came⟩ := Prod.mk.inj ran
        cases came
        rw [moved, show transferred [] = 0 from rfl, Nat.add_zero, ofNat_toNat, setWidth_eq]
      · obtain ⟨rfl, came⟩ := Prod.mk.inj ran
        have rest := ih (file.moved _ r size) (by rw [isDirect_moved]; exact feeds') (Prod.ext rfl came)
        rw [rest, singleton_append, moved, ofNat_add, ofNat_toNat, setWidth_eq, add_assoc]

/-- **The caller gets too much, or a negative number**, whatever the blocks contain. -/
theorem readBlocks_behind (file : OpenFile own w f ino)
    (feeds : Feeds (w.isDirect f) own src w.files.vol.cache)
    (small : off.toNat < blockSize) (behind : (w.files.vol.inodeTable ino).iSize.toNat < off.toNat)
    {k : Nat} (least : index ≤ k) (most : k < index + left)
    (block : (w.files.vol.inodeTable ino).iZone k ≠ 0#32) {log : List Transfer} {ret : Int} {w' : World}
    (ran : readBlocks who f ino left index off count data 0#32 w = (log, some (ret, w'))) :
    0 < transferred log ∨ ret < 0 := by
  induction left generalizing index with
  | zero => omega
  | succ left ih =>
    by_cases outside : nrTzones ≤ index
    · rw [readBlocks_outside outside] at ran
      cases ran
    have inside := Nat.lt_of_not_le outside
    by_cases hole : (w.files.vol.inodeTable ino).iZone index = 0#32
    · rw [readBlocks_hole inside hole] at ran
      have apart : index ≠ k := fun same => block (same ▸ hole)
      exact ih (by omega) (by omega) ran
    · have known := (file.placed index inside).resolve_left hole
      have len := readLen_behind count small behind
      obtain ⟨first, c, memory, feeds', size, read⟩ :=
        readFrom_behind who data feeds file.dev rfl known.1
        small behind
      rw [← len] at read
      rw [readBlocks_block inside hole read, len] at ran
      have apart : (w.files.vol.inodeTable ino).iSize - off ≠ 0#32 := by
        bv_omega
      have negative : ((w.files.vol.inodeTable ino).iSize - off).toInt < 0 := by
        unfold blockSize at small
        rw [toInt_eq_toNat_cond, toNat_sub]
        split <;> omega
      generalize (w.files.vol.inodeTable ino).iSize - off = r at *
      rw [if_neg apart] at ran
      obtain ⟨rfl, came⟩ := Prod.mk.inj ran
      have rest := readBlocks_came (file.moved memory r size) (by rw [isDirect_moved]; exact feeds')
        (Prod.ext rfl came)
      rw [transferred_append, rest, BitVec.zero_add]
      generalize transferred (Prod.fst _) = more
      by_cases some : more = 0
      · refine Or.inr ?_
        rw [some, BitVec.add_zero]
        exact negative
      · exact Or.inl (by omega)

end Behind

/-! ### The whole call -/

section Call

variable {w : World} {who : ProcNr} {f : FilpNr} {ino : InodeNr} {data count : Word} {own : Nat → Prop}
  {src : Nat → Word}
variable {zone : Nat → Word}

theorem seek_filp {pos : Word} :
    (w.seek f pos).files.fdTable f = { w.files.fdTable f with filpPos := pos } := update_self ..

theorem OpenFile.fed {cache : Cache} (memory : Memory) (file : OpenFile own w f ino)
    (size : cache.rootfsDiskSize = w.files.vol.cache.rootfsDiskSize) :
    OpenFile own (w.fed cache memory) f ino :=
  ⟨file.inode, file.dev, fun k inside => (file.placed k inside).of_size size⟩

theorem rootFsRead_eq (inode : (w.files.fdTable f).filpIno = some ino) {offset : Word} :
    rootFsRead who f data count offset w =
      readBlocks who f ino (blocksTo offset (w.files.fdTable f).filpPos count)
        (offset.toNat / blockSize)
        (BitVec.ofNat 32 (offset.toNat % blockSize)) count data 0#32 w := by
  rw [rootFsRead, readFilp_bind, inode]
  rfl

theorem lastBlock_eq {pos : Word} (inRange : pos.toNat + count.toNat < nrTzones * blockSize) :
    (pos + count).toNat / blockSize = (pos.toNat + count.toNat) / blockSize := by
  unfold nrTzones blockSize at inRange
  rw [toNat_add_of_lt (by omega)]

theorem blocksTo_eq {pos : Word} (inRange : pos.toNat + count.toNat < nrTzones * blockSize) :
    blocksTo pos pos count = (pos.toNat + count.toNat) / blockSize + 1 - pos.toNat / blockSize := by
  rw [blocksTo, lastBlock_eq inRange]

theorem inZones_of_lt {pos : Word} (inRange : pos.toNat + count.toNat < nrTzones * blockSize) :
    InZones pos count := by
  rw [InZones, lastBlock_eq inRange]
  exact Or.inl (Nat.div_lt_of_lt_mul (Nat.mul_comm .. ▸ inRange))

theorem InZones.lt {pos : Word} {k : Nat} (inZones : InZones pos count)
    (least : pos.toNat / blockSize ≤ k)
    (most : k ≤ (pos + count).toNat / blockSize) : k < nrTzones := by
  unfold InZones at inZones
  omega

theorem offset_small (pos : Word) :
    (BitVec.ofNat 32 (pos.toNat % blockSize)).toNat = pos.toNat % blockSize := by
  rw [toNat_ofNat]
  unfold blockSize
  omega

theorem offset_lt (pos : Word) : (BitVec.ofNat 32 (pos.toNat % blockSize)).toNat < blockSize := by
  rw [offset_small]
  exact Nat.mod_lt _ (by decide)

/-- **A read of a file.** -/
theorem rootFsRead_run (who : ProcNr) (data : Word) (file : OpenFile own w f ino)
    (inZones : InZones (w.files.fdTable f).filpPos count)
    (feeds : Feeds (w.isDirect f) own src w.files.vol.cache)
    (within : ∀ k, (w.files.fdTable f).filpPos.toNat / blockSize ≤ k → k ≤ w.lastBlock f count →
      (w.files.vol.inodeTable ino).iZone k ≠ 0#32 →
      (w.files.fdTable f).filpPos.toNat % blockSize ≤ (w.files.vol.inodeTable ino).iSize.toNat) :
    ∃ c, Feeds (w.isDirect f) own src c ∧ c.rootfsDiskSize = w.files.vol.cache.rootfsDiskSize ∧
      rootFsRead who f data count (w.files.fdTable f).filpPos w =
        (transfers who data (w.fileRead f ino count), some ((total (w.fileRead f ino count) : Int),
          w.moved f c (putList w.kernel.memory data (contents src (w.fileRead f ino count)))
            (BitVec.ofNat 32 (total (w.fileRead f ino count))))) := by
  have pieces : w.pieces ino (blocksTo (w.files.fdTable f).filpPos (w.files.fdTable f).filpPos count)
      ((w.files.fdTable f).filpPos.toNat / blockSize)
      (BitVec.ofNat 32 ((w.files.fdTable f).filpPos.toNat % blockSize)) count =
        w.fileRead f ino count := by
    rw [World.pieces, offset_small]
    rfl
  have readable : Readable w f ino (w.isDirect f) own src
      (blocksTo (w.files.fdTable f).filpPos (w.files.fdTable f).filpPos count)
      ((w.files.fdTable f).filpPos.toNat / blockSize)
      (BitVec.ofNat 32 ((w.files.fdTable f).filpPos.toNat % blockSize)) :=
    { feeds := feeds
      dev := file.dev
      flags := rfl
      inside := fun k least most => inZones.lt least (by unfold blocksTo at most; omega)
      placed := file.placed
      small := offset_lt _
      within := fun k least most block => by
        rw [offset_small]
        exact within k least (by unfold blocksTo at most; unfold World.lastBlock; omega) block }
  obtain ⟨c, feeds', size, ran⟩ := readBlocks_run who count data 0#32 readable
  rw [pieces] at ran
  refine ⟨c, feeds', size, ?_⟩
  rw [rootFsRead_eq file.inode, ran, BitVec.zero_add, toInt_ofNat']
  have few : total (w.fileRead f ino count) ≤ nrTzones * blockSize - _ :=
    total_le_blocks nrTzones _ _ _ _ (Nat.mod_lt _ (by decide)) fun k least behind most =>
      absurd (inZones.lt least (by unfold World.lastBlock at most; omega)) (Nat.not_lt.mpr behind)
  unfold nrTzones blockSize at *
  rw [Int.bmod_eq_of_le (by omega) (by omega)]

theorem contents_none {size left index off : Nat} :
    contents src (readPieces zone size left index off 0) = [] :=
  eq_nil_of_length_eq_zero (Nat.le_zero.mp ((length_contents src).trans_le total_readPieces_le))

theorem slice_fileWord {index off len : Nat} (fits : off + len ≤ blockSize) :
    slice src ((zone index).toNat * blockSize + off) len =
      (List.range len).map fun i => fileWord zone src (index * blockSize + off + i) := by
  refine map_congr_left fun i member => ?_
  have inside := mem_range.mp member
  have here : (index * blockSize + off + i) / blockSize = index := by
    unfold blockSize at *
    omega
  have offset : (index * blockSize + off + i) % blockSize = off + i := by
    unfold blockSize at *
    omega
  rw [fileWord, here, offset, Nat.add_assoc]

/-- The words of the pieces are those of the file, if there is no hole among them. -/
theorem contents_readPieces (src : Nat → Word) {size : Nat} (left index off count : Nat)
    (small : off < blockSize) (inside : index * blockSize + off + count ≤ size)
    (enough : off + count ≤ left * blockSize)
    (solid : ∀ i < count, zone ((index * blockSize + off + i) / blockSize) ≠ 0#32) :
    contents src (readPieces zone size left index off count) =
      (List.range count).map fun i => fileWord zone src (index * blockSize + off + i) := by
  induction left generalizing index off count with
  | zero =>
    have none : count = 0 := by omega
    rw [none]
    rfl
  | succ left ih =>
    by_cases none : count = 0
    · rw [none, contents_none]
      rfl
    have block : zone index ≠ 0#32 := by
      have first := solid 0 (by omega)
      rwa [Nat.add_zero, div_blockSize small] at first
    have len : pieceLen size off count = min count (blockSize - off) := by
      unfold pieceLen
      split <;> omega
    rw [readPieces_block block (by omega), contents_cons]
    dsimp only
    rw [slice_fileWord (by omega)]
    by_cases full : blockSize - off ≤ count
    · have rest := ih (index + 1) 0 (count - pieceLen size off count) (by decide)
        (by rw [Nat.succ_mul]; omega) (by rw [Nat.succ_mul] at enough; omega) fun i less => by
          have here := solid (pieceLen size off count + i) (by omega)
          rwa [show index * blockSize + off + (pieceLen size off count + i) =
            (index + 1) * blockSize + 0 + i by rw [Nat.succ_mul]; omega] at here
      have split : count = pieceLen size off count + (count - pieceLen size off count) := by omega
      rw [rest]
      conv_rhs => rw [split, range_add, map_append, map_map]
      refine congrArg (_ ++ ·) (map_congr_left fun i _ => ?_)
      show _ = fileWord zone src (index * blockSize + off + (pieceLen size off count + i))
      rw [show index * blockSize + off + (pieceLen size off count + i) =
        (index + 1) * blockSize + 0 + i by rw [Nat.succ_mul]; omega]
    · have all : pieceLen size off count = count := by omega
      rw [all, Nat.sub_self, contents_none, append_nil]

/-- **A window of a file** that has no hole there. -/
theorem contents_fileRead (src : Nat → Word) {size pos count : Nat} (inside : pos + count ≤ size)
    (solid : ∀ i < count, zone ((pos + i) / blockSize) ≠ 0#32) :
    contents src (Fs.fileRead zone size pos count ((pos + count) / blockSize)) =
      (List.range count).map fun i => fileWord zone src (pos + i) := by
  have start := Nat.div_add_mod' pos blockSize
  have words := contents_readPieces src ((pos + count) / blockSize + 1 - pos / blockSize)
    (pos / blockSize)
    (pos % blockSize) count (Nat.mod_lt _ (by decide)) (start.symm ▸ inside)
    (by unfold blockSize; omega)
    (by rw [start]; exact solid)
  rwa [start] at words

/-- **A read in the file**, without holes, returns what is asked for. -/
theorem rootFsRead_solid (who : ProcNr) (data : Word) (file : OpenFile own w f ino)
    (inRange : (w.files.fdTable f).filpPos.toNat + count.toNat < nrTzones * blockSize)
    (feeds : Feeds (w.isDirect f) own src w.files.vol.cache)
    (inside : (w.files.fdTable f).filpPos.toNat + count.toNat ≤
      (w.files.vol.inodeTable ino).iSize.toNat)
    (solid : ∀ i < count.toNat,
      (w.files.vol.inodeTable ino).iZone (((w.files.fdTable f).filpPos.toNat + i) / blockSize) ≠ 0#32) :
    ∃ c, Feeds (w.isDirect f) own src c ∧ c.rootfsDiskSize = w.files.vol.cache.rootfsDiskSize ∧
      rootFsRead who f data count (w.files.fdTable f).filpPos w =
        (transfers who data (w.fileRead f ino count), some ((count.toNat : Int),
          w.moved f c (putList w.kernel.memory data ((List.range count.toNat).map fun i =>
            fileWord (w.files.vol.inodeTable ino).iZone src
              ((w.files.fdTable f).filpPos.toNat + i))) count)) := by
  obtain ⟨c, feeds', size, ran⟩ :=
    rootFsRead_run who data file (inZones_of_lt inRange) feeds fun k _ _ _ => by
      have := Nat.mod_le (w.files.fdTable f).filpPos.toNat blockSize
      omega
  have words := contents_fileRead src inside solid
  rw [← lastBlock_eq inRange] at words
  change contents src (w.fileRead f ino count) = _ at words
  have all : total (w.fileRead f ino count) = count.toNat := by
    rw [← length_contents src, words, length_map, length_range]
  rw [words, all, ofNat_toNat, setWidth_eq] at ran
  exact ⟨c, feeds', size, ran⟩

end Call

/-! ### A kernel with an open file -/

/-- The slot of the file's descriptor. -/
def fileFilp : FilpNr := ⟨2, by decide⟩

/-- A kernel on the image of `makefs` where descriptor 0 of process 1 is a file. -/
def fileWorld (file : Inode) (flags pos : Word) (memory : Memory) : World where
  kernel := bootMachine [1] (fun _ => 2048) (fun _ => 0) memory
  tables := ⟨fun _ i => if i = 0 then BitVec.twoPow 32 29 else 0, fun _ => 0⟩
  files :=
    let vol := imageVolume plainLayout
    let table := update (update vol.inodeTable rootSlot loadedRoot) fileSlot file
    let files := bootFiles { vol with inodeTable := table }
    { files with
      fdTable := update files.fdTable fileFilp
        ⟨file.iMode, flags, 1, some fileSlot, pos, some .rootfs, 0, false⟩
      procs := update files.procs 1
        { files.procs 1 with fpFilp := update (files.procs 1).fpFilp 0 (some fileFilp) } }
  dirPos := fun _ => ⟨0, 0⟩
  pipes := fun _ => ⟨fun _ => 0, 0, [], []⟩
  ttys := fun _ => ⟨0, 0, none, 0, 0, fun _ => 0, 0, 0, true⟩
  page := true
  block := true

/-- A file with these blocks and this size. -/
def plainFile (zones : List Word) (size : Word) : Inode :=
  { Inode.zero with
    iMode := sIfreg ||| 0x755#32, iNlinks := 1, iSize := size, iZone := fun k => zones.getD k 0#32
    iDev := some .rootfs, iNum := 2, iCount := 1, iNdblock := 3
    iTotalSize := BitVec.ofNat 32 (blockSize * zones.length) }

theorem fileWorld_open {zones : List Word} {size flags pos : Word} {memory : Memory}
    (inside : ∀ zone ∈ zones, zone = 0#32 ∨ (1 ≤ zone.toNat ∧ zone.toNat < 50)) :
    OpenFile (fun _ => True) (fileWorld (plainFile zones size) flags pos memory) fileFilp fileSlot := by
  refine ⟨rfl, rfl, fun k _ => ?_⟩
  show Placed _ _ (zones.getD k 0#32)
  by_cases small : k < zones.length
  · rw [getD_eq_getElem _ _ small]
    refine (inside _ (getElem_mem small)).imp_right fun ⟨positive, less⟩ => ⟨⟨positive, ?_⟩, trivial⟩
    show _ * 1024 + 1024 ≤ 51200
    omega
  · rw [getD_eq_default _ _ (Nat.le_of_not_lt small)]
    exact Or.inl rfl

end Winix.Fs
