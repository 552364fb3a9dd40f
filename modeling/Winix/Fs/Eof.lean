/-
**Reading up to the end of a file.**

`root_fs_read` should return no more than there is between the position and the end of the file, and
zeros for the holes. It compares the offset in a block with the size of the whole file, so that only
a file of less than a block, or of whole blocks, ends where its size says; and it skips the holes. A
read that leaves the zone array does not come back.

* `ReadsToEnd`: what a read should do, whatever the blocks contain;
* `ReadFits`, `AtEnd`: the files, positions and counts where it does;
* **`read_stops_iff`**: the two agree.
-/

import Winix.Fs.Zonebound

namespace Winix.Fs

open Kernel Lib

/-! ### The number of words -/

/-- All zones from one to another are holes. -/
def Holes (zone : Nat → Word) (first last : Nat) : Prop := ∀ k ≤ last, first ≤ k → zone k = 0#32

section Totals

variable {zone : Nat → Word} {size left index off count : Nat}

theorem readPieces_holes (holes : ∀ k, index ≤ k → k < index + left → zone k = 0#32) :
    readPieces zone size left index off count = [] := by
  induction left generalizing index with
  | zero => rfl
  | succ left ih =>
    rw [readPieces_hole (holes index (Nat.le_refl _) (by omega))]
    exact ih fun k least most => holes k (by omega) (by omega)

theorem total_pos {k : Nat} (some : 0 < count) (before : off < size) (small : off < blockSize)
    (least : index ≤ k) (most : k < index + left) (block : zone k ≠ 0#32) :
    0 < total (readPieces zone size left index off count) := by
  induction left generalizing index with
  | zero => omega
  | succ left ih =>
    by_cases hole : zone index = 0#32
    · rw [readPieces_hole hole]
      have apart : index ≠ k := fun same => block (same ▸ hole)
      exact ih (by omega) (by omega)
    · have positive : 0 < pieceLen size off count := by
        unfold pieceLen
        split <;> omega
      rw [readPieces_block hole (by omega), total_cons]
      exact Nat.add_pos_left positive _

theorem total_at_end : total (readPieces zone size left index size count) = 0 := by
  induction left generalizing index with
  | zero => rfl
  | succ left ih =>
    by_cases hole : zone index = 0#32
    · rw [readPieces_hole hole]
      exact ih
    · have empty : pieceLen size size count = 0 := Nat.le_zero.mp (Nat.sub_self size ▸ pieceLen_le_size)
      rw [readPieces_empty hole empty]
      rfl

/-- In a file of less than a block, what follows the first block is only read if it is no hole. -/
theorem total_first (holes : ∀ k, index < k → k < index + left → zone k = 0#32) :
    total (readPieces zone size left index off count) ≤ size - off := by
  cases left with
  | zero => exact Nat.zero_le _
  | succ left =>
    have rest (off' count' : Nat) : readPieces zone size left (index + 1) off' count' = [] :=
      readPieces_holes fun k least most => holes k (by omega) (by omega)
    by_cases hole : zone index = 0#32
    · rw [readPieces_hole hole, rest]
      exact Nat.zero_le _
    · by_cases empty : pieceLen size off count = 0
      · rw [readPieces_empty hole empty]
        exact Nat.zero_le _
      · rw [readPieces_block hole empty, rest]
        exact pieceLen_le_size

theorem pieceLen_of_large (count : Nat) (large : blockSize ≤ size) (small : off < blockSize) :
    pieceLen size off count = min count (blockSize - off) := by
  unfold pieceLen
  split <;> omega

theorem total_solid {last : Nat} (left index off count : Nat) (large : blockSize ≤ size)
    (solid : ∀ k, index ≤ k → k < last → zone k ≠ 0#32) (before : index < last)
    (inside : last ≤ index + left) (small : off < blockSize) :
    min count (last * blockSize - (index * blockSize + off)) +
        total (readPieces zone size (index + left - last) last 0
          (count - (last * blockSize - (index * blockSize + off)))) ≤
      total (readPieces zone size left index off count) := by
  induction left generalizing index off count with
  | zero => omega
  | succ left ih =>
    have len := pieceLen_of_large count large small
    have block := solid index (Nat.le_refl _) before
    have room := Nat.mul_le_mul_right blockSize before
    rw [Nat.succ_mul] at room
    by_cases none : count = 0
    · have rest : total (readPieces zone size (index + (left + 1) - last) last 0
          (count - (last * blockSize - (index * blockSize + off)))) ≤ _ := total_readPieces_le
      omega
    rw [readPieces_block block (by omega), total_cons, len]
    dsimp only
    by_cases next : index + 1 = last
    · subst next
      have rest : index + (left + 1) - (index + 1) = left := by omega
      have words : (index + 1) * blockSize - (index * blockSize + off) = blockSize - off := by
        rw [Nat.succ_mul]
        omega
      rw [rest, words, show count - min count (blockSize - off) = count - (blockSize - off) by omega]
    · have rest := ih (index + 1) 0 (count - min count (blockSize - off))
        (fun k least most => solid k (by omega) most) (by omega) (by omega) (by decide)
      rw [Nat.succ_mul, Nat.add_zero] at rest
      have further := Nat.mul_le_mul_right blockSize (show index + 2 ≤ last by omega)
      rw [Nat.add_mul] at further
      have counts :
          count - min count (blockSize - off) - (last * blockSize - (index * blockSize + blockSize)) =
          count - (last * blockSize - (index * blockSize + off)) := by
        omega
      rw [counts, show index + 1 + left - last = index + (left + 1) - last by omega] at rest
      omega

end Totals

/-! ### The end of the file -/

/-- The words between the position and the end of the file that are asked for. -/
def wordsLeft (size pos count : Nat) : Nat := min count (size - pos)

/-- No hole is before the end of the file, and what is read up to this block ends there. -/
def ReadFits (zone : Nat → Word) (size pos count last : Nat) : Prop :=
  (∀ i < wordsLeft size pos count, (pos + i) / blockSize < nrTzones →
    zone ((pos + i) / blockSize) ≠ 0#32) ∧
    (pos + count ≤ size ∨
      (size ≤ pos ∧ (pos % blockSize = size ∨ (count = 0 ∧ pos % blockSize < size) ∨
        Holes zone (pos / blockSize) last)) ∨
      (pos < size ∧ (size < blockSize ∨ blockSize ∣ size ∨ (last + 1) * blockSize ≤ size) ∧
        Holes zone ((size + blockSize - 1) / blockSize) last))

section Fits

variable {zone : Nat → Word} {size pos count last : Nat}

theorem ReadFits.within (fits : ReadFits zone size pos count last) {k : Nat}
    (least : pos / blockSize ≤ k)
    (most : k ≤ last) (block : zone k ≠ 0#32) : pos % blockSize ≤ size := by
  have small := Nat.mod_le pos blockSize
  obtain inside | ⟨behind, same | ⟨-, before⟩ | holes⟩ | ⟨before, -⟩ := fits.2
  · omega
  · omega
  · omega
  · exact absurd (holes k most least) block
  · omega

theorem ReadFits.total_le (fits : ReadFits zone size pos count last) :
    total (fileRead zone size pos count last) ≤ wordsLeft size pos count := by
  have asked : total (fileRead zone size pos count last) ≤ count := total_readPieces_le
  have small : pos % blockSize < blockSize := Nat.mod_lt _ (by decide)
  have split := Nat.div_add_mod' pos blockSize
  unfold wordsLeft
  obtain inside | ⟨behind, same | ⟨none, -⟩ | holes⟩ | ⟨before, short | ⟨blocks, whole⟩ | far,
    holes⟩ := fits.2
  · omega
  · have nothing : total (fileRead zone size pos count last) = 0 := by
      rw [fileRead, same]
      exact total_at_end
    omega
  · omega
  · have empty : fileRead zone size pos count last = [] :=
      readPieces_holes fun k least most => holes k (by omega) least
    rw [empty]
    exact Nat.zero_le _
  · have start : pos % blockSize = pos := Nat.mod_eq_of_lt (by omega)
    have cut : total (fileRead zone size pos count last) ≤ size - pos % blockSize :=
      total_first fun k least most => holes k (by omega) (by unfold blockSize at *; omega)
    omega
  · have end' : (size + blockSize - 1) / blockSize * blockSize = size := by
      rw [whole]
      unfold blockSize
      omega
    have cut : total (fileRead zone size pos count last) ≤ _ :=
      total_le_blocks ((size + blockSize - 1) / blockSize) _ _ _ _ small
        fun k least behind most => holes k (by omega) behind
    omega
  · have cut : total (fileRead zone size pos count last) ≤ _ :=
      total_le_blocks (last + 1) _ _ _ _ small fun k least behind most => by omega
    omega

/-- **The pieces end where they should** only there, if the offset is not behind the size. -/
theorem fits_of_total_le (inZones : last < nrTzones ∨ last < pos / blockSize)
    (solid : ∀ i < wordsLeft size pos count, (pos + i) / blockSize < nrTzones →
      zone ((pos + i) / blockSize) ≠ 0#32)
    (within : ∀ k, pos / blockSize ≤ k → k ≤ last → zone k ≠ 0#32 → pos % blockSize ≤ size)
    (ends : total (fileRead zone size pos count last) ≤ wordsLeft size pos count) :
    ReadFits zone size pos count last := by
  refine ⟨solid, ?_⟩
  have small : pos % blockSize < blockSize := Nat.mod_lt _ (by decide)
  have split := Nat.div_add_mod' pos blockSize
  unfold wordsLeft at solid ends
  by_cases inside : pos + count ≤ size
  · exact Or.inl inside
  by_cases behind : size ≤ pos
  · -- nothing may be read at all
    refine Or.inr (Or.inl ⟨behind, ?_⟩)
    by_cases same : pos % blockSize = size
    · exact Or.inl same
    by_cases none : count = 0 ∧ pos % blockSize < size
    · exact Or.inr (Or.inl none)
    refine Or.inr (Or.inr fun k most least => ?_)
    by_contra block
    have least' := within k least most block
    have positive : 0 < total (fileRead zone size pos count last) :=
      total_pos (by omega) (by omega) small least (by omega) block
    omega
  refine Or.inr (Or.inr ⟨by omega, ?_⟩)
  by_cases far : (last + 1) * blockSize ≤ size
  · -- all that is read is in the file
    refine ⟨Or.inr (Or.inr far), fun k most least => absurd most ?_⟩
    unfold blockSize at *
    omega
  have reached : pos / blockSize ≤ last := by
    unfold blockSize at *
    omega
  by_cases short : size < blockSize
  · -- the first block is read up to the size, and nothing may follow
    have first : pos / blockSize = 0 := Nat.div_eq_of_lt (by omega)
    have start : pos % blockSize = pos := Nat.mod_eq_of_lt (by omega)
    have one : (size + blockSize - 1) / blockSize = 1 := by
      unfold blockSize at *
      omega
    have block : zone 0 ≠ 0#32 := by
      have here := solid 0 (by omega) (by rw [Nat.add_zero, first]; decide)
      rwa [Nat.add_zero, first] at here
    have cut : pieceLen size (pos % blockSize) count = size - pos := by
      unfold pieceLen
      split <;> omega
    have pieces : total (fileRead zone size pos count last) = size - pos +
        total (readPieces zone size last 1 0 (count - (size - pos))) := by
      rw [fileRead, first, Nat.sub_zero, readPieces_block block (by omega), cut, total_cons]
    refine ⟨Or.inl short, fun k most least => ?_⟩
    by_contra block'
    have positive : 0 < total (readPieces zone size last 1 0 (count - (size - pos))) :=
      total_pos (by omega) (by omega) (by decide) (by omega) (by omega) block'
    omega
  · -- the blocks up to the size are read in full
    have large : blockSize ≤ size := by omega
    have before : pos / blockSize < (size + blockSize - 1) / blockSize := by
      unfold blockSize at *
      omega
    have most : (size + blockSize - 1) / blockSize ≤ last + 1 := by
      unfold blockSize at *
      omega
    have blocks (k : Nat) (least : pos / blockSize ≤ k)
      (less : k < (size + blockSize - 1) / blockSize) :
        zone k ≠ 0#32 := by
      have here : (pos + (k * blockSize - pos)) / blockSize = k := by
        unfold blockSize at *
        omega
      have block := solid (k * blockSize - pos) (by unfold blockSize at *; omega) (by rw [here]; omega)
      rwa [here] at block
    have full := total_solid (last + 1 - pos / blockSize) _ _ count large blocks before (by omega) small
    rw [show pos / blockSize * blockSize + pos % blockSize = pos from split] at full
    unfold fileRead at ends
    have reach : size ≤ (size + blockSize - 1) / blockSize * blockSize := by
      unfold blockSize
      omega
    have whole : (size + blockSize - 1) / blockSize * blockSize = size := by omega
    refine ⟨Or.inr (Or.inl ⟨_, (whole.symm.trans (Nat.mul_comm ..))⟩), fun k most' least => ?_⟩
    by_contra block
    rw [whole] at full
    have nothing := Nat.le_of_add_le_add_left (full.trans (ends.trans (Nat.add_zero _).ge))
    exact Nat.not_lt_of_le nothing
      (total_pos (by omega) (by omega) (by decide) least (by omega) block)

end Fits

/-! ### The call -/

/-- The words that a read should return. -/
def World.wordsLeft (w : World) (f : FilpNr) (ino : InodeNr) (count : Word) : Nat :=
  Fs.wordsLeft (w.files.vol.inodeTable ino).iSize.toNat (w.files.fdTable f).filpPos.toNat count.toNat

/-- A word of the file is in a hole. -/
def World.inHole (w : World) (f : FilpNr) (ino : InodeNr) (i : Nat) : Prop :=
  ((w.files.fdTable f).filpPos.toNat + i) / blockSize < nrTzones ∧
    (w.files.vol.inodeTable ino).iZone (((w.files.fdTable f).filpPos.toNat + i) / blockSize) = 0#32

/-- The read has stopped at the end of the file: it has returned and moved no more words than there
are, the position has advanced by what it has returned, and the holes have been read as zeros. -/
structure Stopped (w : World) (f : FilpNr) (ino : InodeNr) (data count : Word) (log : List Transfer)
    (ret : Int) (w' : World) : Prop where
  least : 0 ≤ ret
  most : ret ≤ w.wordsLeft f ino count
  written : transferred log ≤ w.wordsLeft f ino count
  advanced : (w'.files.fdTable f).filpPos = (w.files.fdTable f).filpPos + BitVec.ofInt 32 ret
  zeros : ∀ i < w.wordsLeft f ino count, w.inHole f ino i →
    i < ret ∧ w'.kernel.memory (data + BitVec.ofNat 32 i) = 0#32

/-- **What a read should do**, whatever the blocks contain. -/
def ReadsToEnd (w : World) (who : ProcNr) (f : FilpNr) (ino : InodeNr) (data count : Word) : Prop :=
  ∀ cache array, Rest cache array → cache.rootfsDiskSize = w.files.vol.cache.rootfsDiskSize →
    ∃ log ret w',
      rootFsRead who f data count (w.files.fdTable f).filpPos (w.fed cache w.kernel.memory) =
      (log, some (ret, w')) ∧ Stopped w f ino data count log ret w'

/-- The read fits, and does not leave the zone array. -/
def World.ReadFits (w : World) (f : FilpNr) (ino : InodeNr) (count : Word) : Prop :=
  InZones (w.files.fdTable f).filpPos count ∧
    Fs.ReadFits (w.files.vol.inodeTable ino).iZone (w.files.vol.inodeTable ino).iSize.toNat
      (w.files.fdTable f).filpPos.toNat count.toNat (w.lastBlock f count)

/-- The offset in the block is the size, and the file has a block from there on: the read stops at
it. -/
def World.AtEnd (w : World) (f : FilpNr) (ino : InodeNr) : Prop :=
  (w.files.fdTable f).filpPos.toNat % blockSize = (w.files.vol.inodeTable ino).iSize.toNat ∧
    1 ≤ blocksFrom (w.files.vol.inodeTable ino).iZone ((w.files.fdTable f).filpPos.toNat / blockSize)

section Call

variable {w : World} {who : ProcNr} {f : FilpNr} {ino : InodeNr} {data count : Word} {cache : Cache}
  {src : Nat → Word} {direct : Bool}

/-- Without holes, a read of no more words than there are stops at the end. -/
theorem stopped_of_fits (src : Nat → Word) (file : OpenFile (fun _ => True) w f ino)
    (feeds : Feeds (w.isDirect f) (fun _ => True) src cache)
    (size : cache.rootfsDiskSize = w.files.vol.cache.rootfsDiskSize) (fits : w.ReadFits f ino count) :
    ∃ log ret w',
      rootFsRead who f data count (w.files.fdTable f).filpPos (w.fed cache w.kernel.memory) =
      (log, some (ret, w')) ∧ Stopped w f ino data count log ret w' := by
  obtain ⟨inZones, fits⟩ := fits
  obtain ⟨c, -, -, ran⟩ := rootFsRead_run who data
    (file.fed w.kernel.memory size) inZones feeds fun k => fits.within
  have least := fits.total_le
  refine ⟨_, _, _, ran, ⟨Int.natCast_nonneg _, Int.ofNat_le.mpr least, ?_, ?_, ?_⟩⟩
  · rw [transferred_transfers]
    exact least
  · rw [moved_filp, BitVec.ofInt_natCast]
    rfl
  · exact fun i inside hole => absurd hole.2 (fits.1 i inside hole.1)

/-- A block of which nothing is read ends the loop. -/
theorem readBlocks_atEnd (who : ProcNr) (count data ret : Word) {own : Nat → Prop}
    {left index : Nat} {off : Word}
    (file : OpenFile own w f ino)
    (feeds : Feeds (w.isDirect f) own src w.files.vol.cache) (small : off.toNat < blockSize)
    (same : off.toNat = (w.files.vol.inodeTable ino).iSize.toNat)
    (some : 1 ≤ blocksFrom (w.files.vol.inodeTable ino).iZone index) (far : nrTzones ≤ index + left) :
    ∃ c, readBlocks who f ino left index off count data ret w =
      ([⟨who, data, 0⟩], Option.some (ret.toInt, w.moved f c w.kernel.memory 0#32)) := by
  have inside : index < nrTzones := by
    by_contra behind
    rw [blocksFrom_end (Nat.le_of_not_lt behind)] at some
    omega
  induction left generalizing index with
  | zero => omega
  | succ left ih =>
    by_cases hole : (w.files.vol.inodeTable ino).iZone index = 0#32
    · have some' := (blocksFrom_hole hole).ge.trans' some
      obtain ⟨c, ran⟩ := ih some' (by omega) (by
        by_contra behind
        rw [blocksFrom_end (Nat.le_of_not_lt behind)] at some'
        omega)
      exact ⟨c, (readBlocks_hole inside hole).trans ran⟩
    · have known := (file.placed index inside).resolve_left hole
      have none : readLen (w.files.vol.inodeTable ino).iSize off count = 0#32 := by
        refine BitVec.eq_of_toNat_eq ?_
        rw [readLen_toNat count (Nat.le_of_lt small) same.le, same]
        exact Nat.le_zero.mp (Nat.sub_self _ ▸ pieceLen_le_size)
      obtain ⟨c, -, -, read⟩ := readFrom_run who data feeds file.dev rfl known.1 known.2 small
        (show off.toNat + (0#32).toNat ≤ blockSize from Nat.le_of_lt small)
      rw [← none] at read
      refine ⟨c, ?_⟩
      rw [readBlocks_block inside hole read, if_pos none, none, BitVec.add_zero]
      exact congrArg (fun memory => (_, Option.some (_, w.moved f c memory _))) putList_nil

theorem World.AtEnd.nothing (atEnd : w.AtEnd f ino) (count : Word) : w.wordsLeft f ino count = 0 := by
  have part := Nat.mod_le (w.files.fdTable f).filpPos.toNat blockSize
  have same := atEnd.1
  unfold World.wordsLeft Fs.wordsLeft
  omega

/-- A read at the end stops, even if it goes on behind the array. -/
theorem stopped_of_atEnd (src : Nat → Word) (file : OpenFile (fun _ => True) w f ino)
    (feeds : Feeds (w.isDirect f) (fun _ => True) src cache)
    (size : cache.rootfsDiskSize = w.files.vol.cache.rootfsDiskSize) (atEnd : w.AtEnd f ino) :
    ∃ log ret w',
      rootFsRead who f data count (w.files.fdTable f).filpPos (w.fed cache w.kernel.memory) =
      (log, some (ret, w')) ∧ Stopped w f ino data count log ret w' := by
  have nothing := atEnd.nothing count
  by_cases inZones : InZones (w.files.fdTable f).filpPos count
  · refine stopped_of_fits src file feeds size ⟨inZones,
      fun i inside => ?_, Or.inr (Or.inl ⟨?_, Or.inl atEnd.1⟩)⟩
    · exact absurd inside (Nat.not_lt.mpr (nothing.trans_le (Nat.zero_le i)))
    · exact atEnd.1 ▸ Nat.mod_le ..
  · obtain ⟨-, far⟩ := far_of_not_inZones inZones
    obtain ⟨c, ran⟩ := readBlocks_atEnd who count data 0#32
      (file.fed w.kernel.memory size) feeds (offset_lt _) ((offset_small _).trans atEnd.1) atEnd.2
      (Nat.le_of_lt far)
    refine ⟨_, 0, _, (rootFsRead_eq (file.fed w.kernel.memory size).inode).trans ran,
      ⟨Int.le_refl _, Int.natCast_nonneg _, Nat.zero_le _, by rw [moved_filp]; rfl, fun i inside => ?_⟩⟩
    exact absurd inside (nothing ▸ Nat.not_lt_zero i)

/-- The cache over a disk of ones. -/
def onesCache (c : Cache) : Cache := initBuf { c with rootfsDisk := fun _ => 1#32 }

theorem onesCache_feeds (direct : Bool) (c : Cache) :
    Feeds direct (fun _ => True) (fun _ => 1#32) (onesCache c) := by
  cases direct with
  | true => rfl
  | false => exact (rest_initBuf { c with rootfsDisk := fun _ => 1#32 }).settled _

theorem contents_ones {pieces : List Piece} {i : Nat} (inside : i < total pieces) :
    (contents (fun _ => 1#32) pieces).getD i 0#32 = 1#32 := by
  rw [List.getD_eq_getElem _ _ (by rwa [length_contents])]
  have member := List.getElem_mem (show i < (contents (fun _ => 1#32) pieces).length by
    rwa [length_contents])
  obtain ⟨piece, -, here⟩ := List.mem_flatMap.mp member
  obtain ⟨_, _, same⟩ := List.mem_map.mp here
  exact same.symm

/-- Where a read stops at the end, the offset is not behind the size in a block that it comes to. -/
theorem within_of_stopped {log : List Transfer} {ret : Int} {w' : World} {k : Nat}
    (file : OpenFile (fun _ => True) w f ino)
    (size : cache.rootfsDiskSize = w.files.vol.cache.rootfsDiskSize)
    (feeds : Feeds (w.isDirect f) (fun _ => True) src cache)
    (ran : rootFsRead who f data count (w.files.fdTable f).filpPos (w.fed cache w.kernel.memory) =
      (log, some (ret, w')))
    (stopped : Stopped w f ino data count log ret w')
    (least : (w.files.fdTable f).filpPos.toNat / blockSize ≤ k) (most : k ≤ w.lastBlock f count)
    (block : (w.files.vol.inodeTable ino).iZone k ≠ 0#32) :
    (w.files.fdTable f).filpPos.toNat % blockSize ≤ (w.files.vol.inodeTable ino).iSize.toNat := by
  by_contra behind
  have file' := file.fed w.kernel.memory size
  rw [rootFsRead_eq file'.inode] at ran
  have wrong := readBlocks_behind file' feeds (offset_lt _)
    (by rw [offset_small]; exact Nat.lt_of_not_le behind) least
    (show k < _ + blocksTo (w.files.fdTable f).filpPos (w.files.fdTable f).filpPos count by
      unfold blocksTo; unfold World.lastBlock at most; omega) block ran
  have nothing := stopped.written
  have positive := stopped.least
  have part := Nat.mod_le (w.files.fdTable f).filpPos.toNat blockSize
  unfold World.wordsLeft wordsLeft at nothing
  omega

/-- A read that stops at the end, whatever the blocks contain, fits, or it is at the end. -/
theorem fits_of_readsToEnd (file : OpenFile (fun _ => True) w f ino)
    (right : ReadsToEnd w who f ino data count) : w.ReadFits f ino count ∨ w.AtEnd f ino := by
  have size : (onesCache w.files.vol.cache).rootfsDiskSize = w.files.vol.cache.rootfsDiskSize := rfl
  have feeds := onesCache_feeds (w.isDirect f) w.files.vol.cache
  obtain ⟨log, ret, w', ran, stopped⟩ := right (onesCache w.files.vol.cache) _ (rest_initBuf _) size
  have file' := file.fed w.kernel.memory size
  have within (k : Nat) := within_of_stopped (k := k) file size feeds ran stopped
  by_cases inZones : InZones (w.files.fdTable f).filpPos count
  · obtain ⟨c, -, -, ran'⟩ := rootFsRead_run who data file' inZones feeds within
    obtain ⟨rfl, result⟩ := Prod.mk.inj (ran.symm.trans ran')
    obtain ⟨rfl, rfl⟩ := Prod.mk.inj (Option.some.inj result)
    have ends := stopped.written
    rw [transferred_transfers] at ends
    refine Or.inl ⟨inZones, fits_of_total_le inZones (fun i inside few hole => ?_) within ends⟩
    -- the word that is read in the place of the hole is a one
    obtain ⟨read, zero⟩ := stopped.zeros i inside ⟨few, hole⟩
    have few : total (w.fileRead f ino count) ≤ count.toNat := total_readPieces_le
    have bound := count.isLt
    have one : putList w.kernel.memory data (contents (fun _ => 1#32) (w.fileRead f ino count))
        (data + BitVec.ofNat 32 i) = 1#32 := by
      rw [putList_word (by rw [length_contents]; exact Int.ofNat_lt.mp read)
        (by rw [length_contents]; omega)]
      exact contents_ones (Int.ofNat_lt.mp read)
    exact absurd (one.symm.trans zero) (by decide)
  · -- the read comes back before it leaves the array
    obtain ⟨-, far⟩ := far_of_not_inZones inZones
    have bounded := readBounded_of_came (w := w.fed (onesCache w.files.vol.cache) w.kernel.memory)
      (congrArg Prod.snd ran)
    obtain ⟨same, some⟩ | ⟨empty, some⟩ :=
      ((readBounded_iff _ file' feeds).mp bounded).resolve_left inZones
    · exact Or.inr ⟨same, some⟩
    · obtain ⟨k, member, block⟩ := List.countP_pos_iff.mp (Nat.lt_of_lt_of_le Nat.zero_lt_two some)
      have inside := List.mem_range.mp member
      obtain ⟨least, block⟩ := of_decide_eq_true block
      have least : (w.files.fdTable f).filpPos.toNat / blockSize ≤ k := least
      have atMost := within k least (by unfold blocksTo at far; unfold World.lastBlock; omega) block
      exact Or.inr ⟨Nat.le_antisymm atMost (empty ▸ Nat.zero_le _), Nat.le_of_succ_le some⟩

end Call

/-- **A read stops at the end of the file** exactly if there is no hole before it, and what is read
ends in the file, or with a file of less than a block or of whole blocks that no block follows; or
if the offset in the block is the size. -/
theorem read_stops_iff {w : World} {f : FilpNr} {ino : InodeNr} (who : ProcNr) (data count : Word)
    (file : OpenFile (fun _ => True) w f ino) :
    ReadsToEnd w who f ino data count ↔ w.ReadFits f ino count ∨ w.AtEnd f ino := by
  refine ⟨fits_of_readsToEnd file, fun fits cache array rest size => ?_⟩
  have feeds :
      Feeds (w.isDirect f) (fun _ => True)
        (if w.isDirect f then cache.rootfsDisk else array) cache := by
    cases w.isDirect f with
    | true => rfl
    | false => exact rest.settled _
  obtain fits | atEnd := fits
  · exact stopped_of_fits _ file feeds size fits
  · exact stopped_of_atEnd _ file feeds size atEnd

/-- A file of 1500 words, with the position at its second block. -/
def twoBlocks : World := fileWorld (plainFile [5#32, 6#32] 1500#32) 0 1024#32 fun _ => 0#32

/-- The rest of the file is read. -/
theorem rest_of_file_read : ReadsToEnd twoBlocks 1 fileFilp fileSlot 2048#32 476#32 := by
  have file : OpenFile (fun _ => True) twoBlocks fileFilp fileSlot := fileWorld_open (by simp)
  refine (read_stops_iff 1 2048#32 476#32 file).mpr
    (Or.inl ⟨Or.inl (by decide +kernel), fun i inside _ => ?_, Or.inl (by decide)⟩)
  have inside : i < 476 := inside
  have second : (1024 + i) / blockSize = 1 := by
    unfold blockSize
    omega
  show (plainFile [5#32, 6#32] 1500#32).iZone ((1024 + i) / blockSize) ≠ 0#32
  rw [second]
  decide

/-- **Words behind the end**: the whole block is returned if it is asked for, although only 476 of
its words are in the file; and a read behind the end of a file of ten words moves more words than
there are. -/
theorem whole_block_read :
    ((rootFsRead 1 fileFilp 2048#32 1024#32 1024#32).erase twoBlocks).map Prod.fst = some 1024 ∧
    twoBlocks.wordsLeft fileFilp fileSlot 1024#32 = 476 ∧
    transferred ((rootFsRead 1 fileFilp 2048#32 1#32 20#32).log
      (fileWorld (plainFile [5#32] 10#32) 0 20#32 fun _ => 0#32)) = 2 ^ 32 - 10 := by
  refine ⟨by decide +kernel, by decide +kernel, by decide +kernel⟩

end Winix.Fs
