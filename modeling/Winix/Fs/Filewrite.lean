/-
**Writing a file block by block.**

`root_fs_write` goes over the blocks from the position to the end of what is written, and takes a
block for every hole. On a volume whose blocks are all known (`Rest`) with enough free blocks it
writes everything.

* `writeZone_run`: the block of a zone, taken if there is none (`Zoned`);
* `Written`: what a write does to the volume; one write after the other is one write (`Written.trans`);
* `writeBlocks_run`: the whole loop.
-/

import Winix.Fs.Alloc
import Winix.Fs.Fileio

namespace Winix.Fs

open Kernel Lib Function List BitVec Prog

/-! ### The block map -/

/-- The bit of a block in the block map. -/
def mapBit (array : Nat → Word) (b : Nat) : Bool :=
  bitIn (slice array (mapBlock * blockSize) blockSize) b

/-- The number of free blocks among the first ones. -/
def freeBlocks (array : Nat → Word) (blocks : Nat) : Nat :=
  (List.range blocks).countP fun b => !mapBit array b

/-- The number of holes among the first zones. -/
def missing (zone : Nat → Word) (m : Nat) : Nat := (List.range m).countP fun k => zone k = 0#32

section Maps

variable {array : Nat → Word} {n blocks : Nat}

theorem mapBit_takeBit (small : n < blockSize * 32) {b : Nat} (inMap : b < blockSize * 32) :
    mapBit (takeBit array n) b = (decide (b = n) || mapBit array b) := by
  have part : slice array (mapBlock * blockSize) blockSize =
      slice (fun k => array (mapBlock * blockSize + k)) 0 blockSize :=
    slice_congr fun k _ => by rw [Nat.zero_add]
  have marked := marked_bitmapSetBit (fun k => array (mapBlock * blockSize + k)) small b inMap
  rw [mapBit, takeBit, slice_copyWords, mapBit, part]
  exact marked

theorem takeBit_of_ne {k : Nat} (apart : k / blockSize ≠ mapBlock) : takeBit array n k = array k := by
  refine copyWords_outside _ _ _ _ _ ?_
  unfold mapBlock blockSize at *
  omega

theorem mapBit_copyWords {words : Nat → Word} {b off len : Nat} (notMap : b ≠ mapBlock)
    (fits : off + len ≤ blockSize) :
    mapBit (copyWords len array (b * blockSize + off) words 0) n = mapBit array n := by
  refine congrArg (fun words => bitIn words n) (slice_congr fun k small => copyWords_apart fits ?_)
  rw [div_blockSize small]
  exact notMap.symm

theorem freeBlocks_takeBit (small : n < blocks) (most : blocks ≤ blockSize * 32)
    (free : mapBit array n = false) :
    freeBlocks (takeBit array n) blocks + 1 = freeBlocks array blocks := by
  refine countP_less nodup_range (mem_range.mpr small) ?_ ?_ fun b member apart => ?_
  · rw [free]
    rfl
  · rw [mapBit_takeBit (by omega) (by omega), decide_eq_true rfl]
    rfl
  · have inMap := mem_range.mp member
    rw [mapBit_takeBit (by omega) (by omega), decide_eq_false apart, Bool.false_or]

theorem firstFree_of_freeBlocks (some : 0 < freeBlocks array blocks) (most : blocks ≤ blockSize * 32) :
    ∃ b < blocks, firstFree (slice array (mapBlock * blockSize) blockSize) = Option.some b := by
  obtain ⟨b, member, free⟩ := countP_pos_iff.mp some
  have small := mem_range.mp member
  cases found : firstFree (slice array (mapBlock * blockSize) blockSize) with
  | none =>
    have taken := List.find?_eq_none.mp found b (mem_range.mpr (by omega))
    exact absurd free taken
  | some first =>
    refine ⟨first, ?_, rfl⟩
    by_contra behind
    have before := (List.find?_range_eq_some.mp found).2.2 b (by omega)
    rw [Bool.not_not] at before
    rw [mapBit, before] at free
    cases free

theorem missing_update {zone : Nat → Word} {index m : Nat} {bnr : Word} (hole : zone index = 0#32)
    (small : index < m) (filled : bnr ≠ 0#32) :
    missing (update zone index bnr) m + 1 = missing zone m := by
  refine countP_less nodup_range (mem_range.mpr small) ?_ ?_ fun k _ apart => ?_
  · exact decide_eq_true hole
  · exact decide_eq_false (by rwa [update_self])
  · rw [update_of_ne apart]

end Maps

/-! ### The block of a zone -/

/-- The volume of a file: the blocks of the file are taken, and none of them is there twice. -/
structure Sited (v : Volume) (ino : InodeNr) (array : Nat → Word) : Prop where
  bounded : Bounded v.rootSb
  dev : (v.inodeTable ino).iDev = some .rootfs
  least : mapBlock < diskBlocks v.cache
  most : diskBlocks v.cache ≤ blockSize * 32
  first : mapBit array 0 = true
  map : mapBit array mapBlock = true
  zones : ∀ k < nrTzones, (v.inodeTable ino).iZone k ≠ 0#32 →
    ((v.inodeTable ino).iZone k).toNat < diskBlocks v.cache ∧
      ((v.inodeTable ino).iZone k).toNat ≠ mapBlock ∧
      mapBit array ((v.inodeTable ino).iZone k).toNat = true
  apart : ∀ j < nrTzones, ∀ k < nrTzones, (v.inodeTable ino).iZone j ≠ 0#32 →
    (v.inodeTable ino).iZone j = (v.inodeTable ino).iZone k → j = k

/-- … and everything is known of it. -/
structure Backed (v : Volume) (ino : InodeNr) (array : Nat → Word) :
    Prop extends Sited v ino array where
  rest : Rest v.cache array

/-- … and its map is known, with a free block for every hole among the first zones. -/
structure Charted (v : Volume) (ino : InodeNr) (array : Nat → Word) (m : Nat) :
    Prop extends Sited v ino array where
  idle : Idle (settled (· = mapBlock) array) v.cache
  room : missing (v.inodeTable ino).iZone m ≤ freeBlocks array (diskBlocks v.cache)

/-- The zone has a block, which is the first free one if there was none. -/
structure Zoned (v : Volume) (array : Nat → Word) (ino : InodeNr) (index m : Nat) (v' : Volume)
    (array' : Nat → Word) : Prop where
  charted : Charted v' ino array' m
  block : (v'.inodeTable ino).iZone index ≠ 0#32
  iSize : (v'.inodeTable ino).iSize = (v.inodeTable ino).iSize
  zones : ∀ k, k ≠ index → (v'.inodeTable ino).iZone k = (v.inodeTable ino).iZone k
  kept : (v.inodeTable ino).iZone index ≠ 0#32 → v' = v ∧ array' = array
  taken : (v.inodeTable ino).iZone index = 0#32 →
    firstFree (slice array (mapBlock * blockSize) blockSize) =
      some ((v'.inodeTable ino).iZone index).toNat ∧
      array' = takeBit array ((v'.inodeTable ino).iZone index).toNat
  rest : Rest v.cache array → Rest v'.cache array'
  others : ∀ i, i ≠ ino → v'.inodeTable i = v.inodeTable i
  size : v'.cache.rootfsDiskSize = v.cache.rootfsDiskSize

section Zones

variable {v : Volume} {ino : InodeNr} {array : Nat → Word} {index m : Nat}
variable {bnr : Word} {cache : Cache}

theorem inside_of_diskBlocks {c : Cache} {b : Nat} (positive : 1 ≤ b) (small : b < diskBlocks c) :
    Inside c b := by
  refine ⟨positive, ?_⟩
  unfold diskBlocks blockSize at *
  omega

/-- A block has been taken for a zone. -/
def Volume.gained (v : Volume) (ino : InodeNr) (index : Nat) (bnr : Word) (cache : Cache) : Volume :=
  { v.taken ino with cache }.updateInode ino fun i => { i with iZone := update i.iZone index bnr }

theorem gained_inode : (v.gained ino index bnr cache).inodeTable ino =
    { v.inodeTable ino with
      iTotalSize := (v.inodeTable ino).iTotalSize + BitVec.ofNat 32 blockSize
      iZone := update (v.inodeTable ino).iZone index bnr } := by
  simp only [Volume.gained, Volume.updateInode, Volume.taken, update_self]

theorem gained_zone : ((v.gained ino index bnr cache).inodeTable ino).iZone =
    update (v.inodeTable ino).iZone index bnr := by
  rw [gained_inode]

theorem gained_of_ne {other : InodeNr} (apart : other ≠ ino) :
    (v.gained ino index bnr cache).inodeTable other = v.inodeTable other := by
  simp only [Volume.gained, Volume.updateInode, Volume.taken, update_of_ne apart]

theorem gained_blocks {c : Cache} (size : c.rootfsDiskSize = v.cache.rootfsDiskSize) :
    diskBlocks (v.gained ino index bnr c).cache = diskBlocks v.cache :=
  congrArg (fun size : Word => size.toNat / blockSize) size

theorem mapBit_takeBit_of_set {n b : Nat} (small : n < blockSize * 32) (inMap : b < blockSize * 32)
    (set : mapBit array b = true) : mapBit (takeBit array n) b = true := by
  rw [mapBit_takeBit small inMap, set, Bool.or_true]

theorem Sited.ne_free (sited : Sited v ino array) (free : mapBit array bnr.toNat = false)
    {k : Nat} (inside : k < nrTzones) (used : (v.inodeTable ino).iZone k ≠ 0#32) :
    (v.inodeTable ino).iZone k ≠ bnr := fun same => by
  have set := (sited.zones k inside used).2.2
  rw [same, free] at set
  cases set

/-- **A free block is given to the file.** -/
theorem Sited.gained {c : Cache} (sited : Sited v ino array)
    (size : c.rootfsDiskSize = v.cache.rootfsDiskSize)
    (inDisk : bnr.toNat < diskBlocks v.cache) (free : mapBit array bnr.toNat = false) :
    Sited (v.gained ino index bnr c) ino (takeBit array bnr.toNat) := by
  have most := sited.most
  have bits (b : Nat) (inMap : b < blockSize * 32) (set : mapBit array b = true) :
      mapBit (takeBit array bnr.toNat) b = true := mapBit_takeBit_of_set (by omega) inMap set
  refine ⟨⟨sited.bounded.blockmapnr, sited.bounded.blockmapSize⟩, ?_, ?_, ?_, ?_, ?_, ?_, ?_⟩
  · rw [gained_inode]
    exact sited.dev
  · rw [gained_blocks size]
    exact sited.least
  · rw [gained_blocks size]
    exact most
  · exact bits 0 (by decide) sited.first
  · exact bits mapBlock (by decide) sited.map
  · intro k inside used
    rw [gained_zone] at used ⊢
    rw [gained_blocks size]
    by_cases here : k = index
    · rw [here, update_self]
      refine ⟨inDisk, fun same => ?_, ?_⟩
      · rw [same, sited.map] at free
        cases free
      · rw [mapBit_takeBit (by omega) (by omega), decide_eq_true rfl, Bool.true_or]
    · rw [update_of_ne here] at used ⊢
      obtain ⟨inside', notMap, set⟩ := sited.zones k inside used
      exact ⟨inside', notMap, bits _ (by omega) set⟩
  · intro j inside k inside' used same
    rw [gained_zone] at used same
    by_cases here : j = index
    · by_cases here' : k = index
      · rw [here, here']
      · rw [here, update_self] at used
        rw [here, update_self, update_of_ne here'] at same
        exact absurd same.symm (sited.ne_free free inside' (same ▸ used))
    · rw [update_of_ne here] at used same
      by_cases here' : k = index
      · rw [here', update_self] at same
        exact absurd same (sited.ne_free free inside used)
      · rw [update_of_ne here'] at same
        exact sited.apart j inside k inside' used same

theorem Sited.placed (sited : Sited v ino array) {k : Nat} (inside : k < nrTzones) :
    Placed (fun _ => True) v.cache ((v.inodeTable ino).iZone k) := by
  by_cases hole : (v.inodeTable ino).iZone k = 0#32
  · exact Or.inl hole
  · refine Or.inr ⟨inside_of_diskBlocks ?_ (sited.zones k inside hole).1, trivial⟩
    exact Nat.one_le_iff_ne_zero.mpr fun zero => hole (eq_of_toNat_eq zero)

theorem Backed.charted (backed : Backed v ino array)
    (room : missing (v.inodeTable ino).iZone m ≤ freeBlocks array (diskBlocks v.cache)) :
    Charted v ino array m :=
  ⟨backed.toSited, backed.rest.settled _, room⟩

/-- **The block of a zone**, taken if there is none. -/
theorem writeZone_run (index : Nat) (charted : Charted v ino array m) (small : index < m)
    (few : m ≤ nrTzones) :
    ∃ v' array', writeZone ino index v = some ((v'.inodeTable ino).iZone index, v') ∧
      Zoned v array ino index m v' array' := by
  have inside : index < nrTzones := by omega
  by_cases hole : (v.inodeTable ino).iZone index = 0#32
  · have some : 0 < missing (v.inodeTable ino).iZone m :=
      countP_pos_iff.mpr ⟨index, mem_range.mpr small, decide_eq_true hole⟩
    obtain ⟨b, inDisk, found⟩ :=
      firstFree_of_freeBlocks (Nat.lt_of_lt_of_le some charted.room) charted.most
    have free : mapBit array b = false := firstFree_free found
    have most := charted.most
    cases b with
    | zero => rw [charted.first] at free; cases free
    | succ n =>
      have map := inside_of_diskBlocks (by decide) charted.least
      obtain ⟨c, ran, idle, size⟩ := allocBlock_settled ino charted.idle rfl charted.bounded map found
      have rest (known : Rest v.cache array) : Rest c (takeBit array (n + 1)) := by
        obtain ⟨c', ran', idle', -⟩ := allocBlock_settled ino (known.settled fun _ => True) trivial
          charted.bounded map found
        rw [ran] at ran'
        rw [show c = c' from congrArg (fun result => result.2.cache) (Option.some.inj ran')]
        exact idle'.rest_of_settled
      have number : (BitVec.ofInt 32 (n + 1 : Int)).toNat = n + 1 := by
        rw [show ((n : Int) + 1) = ((n + 1 : Nat) : Int) from rfl, ofInt_natCast, toNat_ofNat]
        unfold blockSize at most
        omega
      have block : BitVec.ofInt 32 (n + 1 : Int) ≠ 0#32 := fun zero => by
        rw [zero] at number
        cases number
      have run : writeZone ino index v = Option.some (BitVec.ofInt 32 (n + 1 : Int),
          v.gained ino index (BitVec.ofInt 32 (n + 1 : Int)) c) := by
        rw [writeZone, bind_run readIno_run, Inode.zoneAt_run inside, pure_bind,
          if_neg (not_not.mpr hole),
          charted.dev, bind_run ran, if_pos block, bind_run updateInode_run]
        rfl
      rw [← number] at idle rest free inDisk found
      generalize BitVec.ofInt 32 (n + 1 : Int) = bnr at *
      have less := freeBlocks_takeBit inDisk most free
      have less' := missing_update hole small block
      have room := charted.room
      refine ⟨v.gained ino index bnr c, takeBit array bnr.toNat, ?_,
        ⟨charted.toSited.gained size inDisk free, idle, ?_⟩, ?_, ?_, fun k apart => ?_, fun used =>
          absurd hole used,
        fun _ => ?_, rest, fun i apart => gained_of_ne apart, size⟩
      · rw [run, gained_zone, update_self]
      · rw [gained_zone, gained_blocks size]
        omega
      · rw [gained_zone, update_self]
        exact block
      · rw [gained_inode]
      · rw [gained_zone, update_of_ne apart]
      · rw [gained_zone, update_self]
        exact ⟨found, rfl⟩
  · refine ⟨v, array, ?_, charted, hole, rfl, fun _ _ => rfl, fun _ => ⟨rfl, rfl⟩,
      fun zero => absurd zero hole, id,
      fun _ _ => rfl, rfl⟩
    rw [writeZone, bind_run readIno_run, Inode.zoneAt_run inside, pure_bind, if_pos hole]
    rfl

section

variable {v' : Volume} {array' : Nat → Word} (zoned : Zoned v array ino index m v' array')
include zoned

theorem Zoned.fresh (hole : (v.inodeTable ino).iZone index = 0#32) :
    mapBit array ((v'.inodeTable ino).iZone index).toNat = false := firstFree_free (zoned.taken hole).1

theorem Zoned.zone_kept {k : Nat} (used : (v.inodeTable ino).iZone k ≠ 0#32) :
    (v'.inodeTable ino).iZone k = (v.inodeTable ino).iZone k := by
  by_cases here : k = index
  · subst here
    rw [(zoned.kept used).1]
  · exact zoned.zones k here

theorem Zoned.words {k : Nat} (notMap : k / blockSize ≠ mapBlock) : array' k = array k := by
  by_cases hole : (v.inodeTable ino).iZone index = 0#32
  · rw [(zoned.taken hole).2]
    exact takeBit_of_ne notMap
  · rw [(zoned.kept hole).2]

theorem Zoned.bits {b : Nat} (inMap : b < blockSize * 32) (set : mapBit array b = true) :
    mapBit array' b = true := by
  by_cases hole : (v.inodeTable ino).iZone index = 0#32
  · obtain ⟨found, same⟩ := zoned.taken hole
    rw [same]
    exact mapBit_takeBit_of_set (firstFree_lt found) inMap set
  · rwa [(zoned.kept hole).2]

end

end Zones

/-! ### One block -/

/-- Another volume, and another position. -/
def World.stored (w : World) (f : FilpNr) (vol : Volume) (r : Word) : World :=
  { w with files := { w.files with
      vol
      fdTable := update w.files.fdTable f
        { w.files.fdTable f with filpPos := (w.files.fdTable f).filpPos + r } } }

/-- The file has grown. -/
def Volume.sized (v : Volume) (ino : InodeNr) (cache : Cache) (r : Word) : Volume :=
  { v with cache }.updateInode ino fun i => { i with iSize := i.iSize + r }

section Block

variable {w : World} {who : ProcNr} {f : FilpNr} {ino : InodeNr} {array : Nat → Word}

theorem stored_stored {vol vol' : Volume} {r r' : Word} :
    (w.stored f vol r).stored f vol' r' = w.stored f vol' (r + r') := by
  simp only [World.stored, update_self, update_idem, add_assoc]

theorem stored_filp {vol : Volume} {r : Word} : (w.stored f vol r).files.fdTable f =
    { w.files.fdTable f with filpPos := (w.files.fdTable f).filpPos + r } := update_self ..

theorem writeBuffered_run (who : ProcNr) (data : Word) {bnr off len : Word} {own : Nat → Prop}
    (idle : Idle (settled own array) w.files.vol.cache)
    (inside : Inside w.files.vol.cache bnr.toNat) (fits : off.toNat + len.toNat ≤ blockSize) :
    ∃ c, writeBuffered who (some .rootfs) data bnr off len w =
        ([⟨who, data, len.toNat⟩], some (len, w.fed c w.kernel.memory)) ∧
      Idle (settled own (copyWords len.toNat array (bnr.toNat * blockSize + off.toNat)
        (fun i => w.kernel.memory (data + BitVec.ofNat 32 i)) 0)) c ∧
      c.rootfsDiskSize = w.files.vol.cache.rootfsDiskSize := by
  obtain ⟨buffer, c₁, got, held, took⟩ := derefBlock_idle (v := w.files.vol) idle inside
  obtain ⟨c₂, put, idle₂, size⟩ :=
    rewriteBlock_settled (v := { w.files.vol with cache := c₁ }) held inside.1
    fun block =>
      copyWords len.toNat block off.toNat (fun i => w.kernel.memory (data + BitVec.ofNat 32 i)) 0
  refine ⟨c₂, ?_, ?_, size.trans took.size⟩
  · have read : readUser who data len.toNat (w.fed c₁ w.kernel.memory) = ([⟨who, data, len.toNat⟩],
        some (fun i => w.kernel.memory (data + BitVec.ofNat 32 i), w.fed c₁ w.kernel.memory)) := rfl
    rw [writeBuffered, Logged.bind_quiet (onDisks_ran got)]
    refine (Logged.bind_ran read).trans ?_
    rw [Logged.bind_quiet (onDisks_ran changeBlock_run), Logged.bind_quiet (onDisks_ran put)]
    rfl
  · by_cases mine : own bnr.toNat
    · rwa [copyBlock_part fits (held.shows inside.1 mine)] at idle₂
    · -- nothing is known of the block, before and after
      refine idle₂.mono fun b words may known => ?_
      have apart : b ≠ bnr.toNat := fun same => mine (same ▸ known)
      exact (may known).trans
        ((slice_copyBlock_of_ne _ _ apart).trans (slice_copyWords_apart fits apart).symm)

theorem writeDirect_run {data bnr off len : Word} (inside : Inside w.files.vol.cache bnr.toNat)
    (small : off.toNat < blockSize) (fits : off.toNat + len.toNat ≤ blockSize) :
    writeDirect who data (off + bnr * BitVec.ofNat 32 blockSize) len w =
      ([⟨who, data, len.toNat⟩], some (len, w.fed { w.files.vol.cache with
        rootfsDisk :=
          copyWords len.toNat w.files.vol.cache.rootfsDisk (bnr.toNat * blockSize + off.toNat)
          (fun i => w.kernel.memory (data + BitVec.ofNat 32 i)) 0 } w.kernel.memory)) := by
  have place := place_toNat inside small
  obtain ⟨starts, ends⟩ := part_inside inside small fits
  have part : len.toNat ≤ blockSize := by omega
  have write := fun words => blkDevIoWrite_inside w.files.vol.cache words starts ends part
  have read : readUser who data len.toNat w = ([⟨who, data, len.toNat⟩],
      some (fun i => w.kernel.memory (data + BitVec.ofNat 32 i), w)) := rfl
  rw [writeDirect, readWorld_bind, place]
  dsimp only
  rw [write, (onDisk_inside _ ends part).2]
  refine (Logged.bind_ran read).trans ?_
  rw [Logged.bind_quiet (onDisks_ran (show (modify _ : VolM PUnit) _ = some (⟨⟩, _) from rfl)), write,
    ofNat_toNat, setWidth_eq]
  rfl

/-- **One block**, through the cache or past it: the map stays known. -/
theorem writeTo_run (who : ProcNr) (filp : Filp) (data : Word) {bnr off len : Word}
    (idle : Idle (settled (· = mapBlock) array) w.files.vol.cache) (dev : filp.filpDev = some .rootfs)
    (inside : Inside w.files.vol.cache bnr.toNat) (notMap : bnr.toNat ≠ mapBlock)
    (small : off.toNat < blockSize) (fits : off.toNat + len.toNat ≤ blockSize) :
    ∃ c, writeTo who filp data bnr off len w =
        ([⟨who, data, len.toNat⟩], some (len, w.fed c w.kernel.memory)) ∧
      Idle (settled (· = mapBlock) array) c ∧ c.rootfsDiskSize = w.files.vol.cache.rootfsDiskSize := by
  rw [writeTo, dev]
  by_cases direct : anyBit filp.filpFlags oDirect = true
  · rw [if_pos direct]
    exact ⟨_, writeDirect_run inside small fits, idle.writeDisk notMap fits, rfl⟩
  · rw [if_neg direct]
    obtain ⟨c, wrote, idle', size⟩ := writeBuffered_run who data idle inside fits
    refine ⟨c, wrote, idle'.mono fun b words may map => ?_, size⟩
    exact (may map).trans (slice_copyWords_apart fits (map ▸ notMap.symm))

end Block

/-! ### The words of the file -/

/-- The words have been written to the file at this place: the other words of the file, the blocks
that it does not have and the other inodes are as before. -/
structure Written (ino : InodeNr) (m : Nat) (v : Volume) (array : Nat → Word) (start : Nat)
    (words : List Word)
    (v' : Volume) (array' : Nat → Word) : Prop where
  backed : Backed v' ino array'
  room : missing (v'.inodeTable ino).iZone m ≤ freeBlocks array' (diskBlocks v'.cache)
  iSize : (v'.inodeTable ino).iSize = (v.inodeTable ino).iSize + BitVec.ofNat 32 words.length
  data : ∀ i < words.length, (start + i) / blockSize < nrTzones ∧
    (v'.inodeTable ino).iZone ((start + i) / blockSize) ≠ 0#32 ∧
    fileWord (v'.inodeTable ino).iZone array' (start + i) = words.getD i 0#32
  kept : ∀ k, (v.inodeTable ino).iZone k ≠ 0#32 →
    (v'.inodeTable ino).iZone k = (v.inodeTable ino).iZone k
  old : ∀ i, i / blockSize < nrTzones → (v.inodeTable ino).iZone (i / blockSize) ≠ 0#32 →
    (i < start ∨ start + words.length ≤ i) →
    fileWord (v'.inodeTable ino).iZone array' i = fileWord (v.inodeTable ino).iZone array i
  fresh : ∀ k < nrTzones, (v.inodeTable ino).iZone k = 0#32 → (v'.inodeTable ino).iZone k ≠ 0#32 →
    mapBit array ((v'.inodeTable ino).iZone k).toNat = false
  foreign : ∀ k, k / blockSize < blockSize * 32 → mapBit array (k / blockSize) = true →
    k / blockSize ≠ mapBlock →
    (∀ j < nrTzones, (v.inodeTable ino).iZone j ≠ 0#32 →
      ((v.inodeTable ino).iZone j).toNat ≠ k / blockSize) →
    array' k = array k
  bits : ∀ b < blockSize * 32, mapBit array b = true → mapBit array' b = true
  others : ∀ i, i ≠ ino → v'.inodeTable i = v.inodeTable i
  size : v'.cache.rootfsDiskSize = v.cache.rootfsDiskSize

section Written

variable {ino : InodeNr} {m start index off : Nat} {v v₁ v₂ : Volume} {array array₁ array₂ : Nat → Word}
  {words more : List Word}
variable {cache : Cache} {r : Word}

theorem Written.nil (backed : Backed v ino array)
    (room : missing (v.inodeTable ino).iZone m ≤ freeBlocks array (diskBlocks v.cache)) :
    Written ino m v array start [] v array where
  backed := backed
  room := room
  iSize := (add_zero _).symm
  data i inside := absurd inside (Nat.not_lt_zero i)
  kept _ _ := rfl
  old _ _ _ _ := rfl
  fresh _ _ hole used := absurd hole used
  foreign _ _ _ _ _ := rfl
  bits _ _ set := set
  others _ _ := rfl
  size := rfl

theorem Written.restart (written : Written ino m v array start [] v₁ array₁) (other : Nat) :
    Written ino m v array other [] v₁ array₁ :=
  { written with
    data := fun i inside => absurd inside (Nat.not_lt_zero i)
    old := fun i inside used _ => written.old i inside used (Nat.lt_or_ge i start) }

/-- **One write after the other.** -/
theorem Written.trans (first : Written ino m v array start words v₁ array₁)
    (second : Written ino m v₁ array₁ (start + words.length) more v₂ array₂) :
    Written ino m v array start (words ++ more) v₂ array₂ where
  backed := second.backed
  room := second.room
  iSize := by
    rw [second.iSize, first.iSize, length_append, ofNat_add, add_assoc]
  data i inside := by
    rw [length_append] at inside
    by_cases early : i < words.length
    · obtain ⟨small, block, word⟩ := first.data i early
      rw [second.kept _ block, second.old _ small block (by omega), word, getD_append _ _ _ _ early]
      exact ⟨small, block, rfl⟩
    · have later := second.data (i - words.length) (by omega)
      rw [show start + words.length + (i - words.length) = start + i by omega] at later
      rw [getD_append_right _ _ _ _ (by omega)]
      exact later
  kept k used := by
    have here := first.kept k used
    rw [second.kept k (by rw [here]; exact used), here]
  old i inside used outside := by
    rw [length_append] at outside
    have here := first.kept _ used
    rw [second.old i inside (by rw [here]; exact used) (by omega), first.old i inside used (by omega)]
  fresh k inside hole used := by
    by_cases filled : (v₁.inodeTable ino).iZone k = 0#32
    · have clear := second.fresh k inside filled used
      have inMap := Nat.lt_of_lt_of_le (second.backed.zones k inside used).1 second.backed.most
      by_contra set
      rw [first.bits _ inMap (Bool.eq_true_of_not_eq_false set)] at clear
      cases clear
    · rw [second.kept k filled]
      exact first.fresh k inside hole filled
  foreign k inMap set notMap foreign := by
    have foreign' (j : Nat) (inside : j < nrTzones) (used : (v₁.inodeTable ino).iZone j ≠ 0#32) :
        ((v₁.inodeTable ino).iZone j).toNat ≠ k / blockSize := by
      by_cases hole : (v.inodeTable ino).iZone j = 0#32
      · intro same
        have clear := first.fresh j inside hole used
        rw [same, set] at clear
        cases clear
      · rw [first.kept j hole]
        exact foreign j inside hole
    rw [second.foreign k inMap (first.bits _ inMap set) notMap foreign',
      first.foreign k inMap set notMap foreign]
  bits b inMap set := second.bits b inMap (first.bits b inMap set)
  others i apart := (second.others i apart).trans (first.others i apart)
  size := second.size.trans first.size

theorem sized_inode : (v.sized ino cache r).inodeTable ino =
    { v.inodeTable ino with iSize := (v.inodeTable ino).iSize + r } := update_self ..

theorem sized_of_ne {other : InodeNr} (apart : other ≠ ino) :
    (v.sized ino cache r).inodeTable other = v.inodeTable other := update_of_ne apart ..

theorem sized_zone : ((v.sized ino cache r).inodeTable ino).iZone = (v.inodeTable ino).iZone := by
  rw [sized_inode]

theorem sized_blocks {c : Cache} (size : c.rootfsDiskSize = v.cache.rootfsDiskSize) :
    diskBlocks (v.sized ino c r).cache = diskBlocks v.cache :=
  congrArg (fun size : Word => size.toNat / blockSize) size

theorem Sited.sized {array' : Nat → Word} (sited : Sited v ino array)
    (size : cache.rootfsDiskSize = v.cache.rootfsDiskSize)
    (bits : ∀ n, mapBit array' n = mapBit array n) :
    Sited (v.sized ino cache r) ino array' := by
  obtain ⟨bounded, dev, least, most, first, map, zones, apart⟩ := sited
  refine ⟨bounded, ?_, ?_, ?_, (bits _).trans first, (bits _).trans map, ?_, ?_⟩
  · rw [sized_inode]
    exact dev
  · rw [sized_blocks size]
    exact least
  · rw [sized_blocks size]
    exact most
  · rw [sized_zone, sized_blocks size]
    intro k small used
    rw [bits]
    exact zones k small used
  · rw [sized_zone]
    exact apart

/-- **One block of the file is written to.** -/
theorem Zoned.written {c : Cache} (zoned : Zoned v array ino index m v₁ array₁) (off : Nat)
    (words : List Word)
    (inside : index < nrTzones)
    (fits : off + words.length ≤ blockSize)
    (rest : Rest c (copyWords words.length array₁
      (((v₁.inodeTable ino).iZone index).toNat * blockSize + off) (fun i => words.getD i 0#32) 0))
    (size : c.rootfsDiskSize = v₁.cache.rootfsDiskSize) :
    Written ino m v array (index * blockSize + off) words
      (v₁.sized ino c (BitVec.ofNat 32 words.length))
      (copyWords words.length array₁ (((v₁.inodeTable ino).iZone index).toNat * blockSize + off)
        (fun i => words.getD i 0#32) 0) := by
  have block := zoned.charted.zones index inside zoned.block
  generalize place : ((v₁.inodeTable ino).iZone index).toNat = b at *
  generalize copied : copyWords words.length array₁ (b * blockSize + off)
    (fun i => words.getD i 0#32) 0 =
    array₂ at *
  have other (k : Nat) (apart : k / blockSize ≠ b) : array₂ k = array₁ k :=
    copied ▸ copyWords_apart fits apart
  have bits (n : Nat) : mapBit array₂ n = mapBit array₁ n := copied ▸ mapBit_copyWords block.2.1 fits
  have zone (k : Nat) (used : (v.inodeTable ino).iZone k ≠ 0#32) := zoned.zone_kept used
  refine ⟨⟨zoned.charted.toSited.sized size bits, rest⟩, ?_, ?_,
    fun i small => ?_, ?_, ?_, ?_, ?_, ?_, ?_, size.trans zoned.size⟩
  · rw [sized_zone, sized_blocks size]
    unfold freeBlocks
    simp only [bits]
    exact zoned.charted.room
  · rw [sized_inode, zoned.iSize]
  · have here : (index * blockSize + off + i) / blockSize = index := by
      unfold blockSize at *
      omega
    have offset : (index * blockSize + off + i) % blockSize = off + i := by
      unfold blockSize at *
      omega
    rw [sized_zone, fileWord, here, offset, place, ← copied, ← Nat.add_assoc,
      copyWords_inside _ _ _ _ _ small, Nat.zero_add]
    exact ⟨inside, zoned.block, rfl⟩
  · intro k used
    rw [sized_zone]
    exact zone k used
  · intro i small used outside
    have same := zone _ used
    have used' : (v₁.inodeTable ino).iZone (i / blockSize) ≠ 0#32 := by rwa [same]
    have notMap := (zoned.charted.zones _ small used').2.1
    have offset : i % blockSize < blockSize := Nat.mod_lt _ (by decide)
    have div :
        (((v₁.inodeTable ino).iZone (i / blockSize)).toNat * blockSize + i % blockSize) / blockSize =
        ((v₁.inodeTable ino).iZone (i / blockSize)).toNat := div_blockSize offset
    have first :
        array₂ (((v₁.inodeTable ino).iZone (i / blockSize)).toNat * blockSize + i % blockSize) =
        array₁ (((v₁.inodeTable ino).iZone (i / blockSize)).toNat * blockSize + i % blockSize) := by
      by_cases here : i / blockSize = index
      · rw [here, place, ← copied]
        refine copyWords_outside _ _ _ _ _ ?_
        unfold blockSize at *
        omega
      · refine other _ fun same => here ?_
        rw [div, ← place] at same
        exact zoned.charted.apart _ small _ inside used' (eq_of_toNat_eq same)
    rw [sized_zone, fileWord, first, zoned.words (by rw [div]; exact notMap), fileWord, same]
  · intro k small hole used
    rw [sized_zone] at used ⊢
    by_cases here : k = index
    · subst here
      exact zoned.fresh hole
    · rw [zoned.zones k here] at used
      exact absurd hole used
  · intro k inMap set notMap foreign
    rw [other k fun same => ?_, zoned.words notMap]
    by_cases hole : (v.inodeTable ino).iZone index = 0#32
    · have clear := zoned.fresh hole
      rw [place, ← same, set] at clear
      cases clear
    · refine foreign index inside hole ?_
      rw [← zone index hole, place, same]
  · exact fun n inMap set => (bits n).trans (zoned.bits inMap set)
  · exact fun i apart => (sized_of_ne apart).trans (zoned.others i apart)

end Written

/-! ### The loop -/

section Loop

variable {w : World} {who : ProcNr} {f : FilpNr} {ino : InodeNr} {array : Nat → Word}
  {left index m : Nat}
  {off count data ret : Word}

theorem writeLen_toNat (count : Word) (small : off.toNat < blockSize) :
    (writeLen off count).toNat = min count.toNat (blockSize - off.toNat) := by
  unfold writeLen blockSize at *
  have room : (BitVec.ofNat 32 1024 - off).toNat = 1024 - off.toNat :=
    toNat_sub_of_le (le_def.mpr (Nat.le_of_lt small))
  split <;> rename_i less <;> rw [lt_def, room] at less <;> omega

theorem writeBlocks_block {v₁ : Volume} {bnr r : Word} {c : Cache} {log : List Transfer}
    (zone : writeZone ino index w.files.vol = some (bnr, v₁)) (block : bnr ≠ 0#32)
    (wrote : writeTo who (w.files.fdTable f) data bnr off (writeLen off count)
      { w with files := { w.files with vol := v₁ } } =
        (log, some (r, { w with files := { w.files with vol := { v₁ with cache := c } } }))) :
    writeBlocks who f ino (left + 1) index off count data ret w =
      if r = 0#32 then
        (log, some (ret.toInt, { w with files := { w.files with vol := { v₁ with cache := c } } }))
      else
        let rest := writeBlocks who f ino left (index + 1) 0#32 (count - writeLen off count)
          (data + r) (ret + r)
          (w.stored f (v₁.sized ino c r) r)
        (log ++ rest.1, rest.2) := by
  rw [writeBlocks, Logged.bind_quiet (onDisks_ran zone), readFilp_bind]
  dsimp only
  rw [if_neg block]
  refine (Logged.bind_ran wrote).trans ?_
  by_cases stop : r = 0#32
  · rw [if_pos stop, if_pos stop]
    exact Prod.ext (append_nil _) rfl
  · rw [if_neg stop, if_neg stop]
    rfl

theorem sized_zero {v : Volume} {c : Cache} : v.sized ino c 0#32 = { v with cache := c } := by
  simp only [Volume.sized, Volume.updateInode, BitVec.add_zero, update_eq_self]

theorem stored_zero {v : Volume} :
    w.stored f v 0#32 = { w with files := { w.files with vol := v } } := by
  simp only [World.stored, BitVec.add_zero, update_eq_self]

section

variable (who : ProcNr) (few : m ≤ nrTzones) (dev : (w.files.fdTable f).filpDev = some .rootfs)
include few dev

/-- **One block of the loop**: as many words as there are, and as fit into the block. -/
theorem writeBlock_charted (index : Nat) (off count data : Word)
    (charted : Charted w.files.vol ino array m)
    (inside : index < m) (small : off.toNat < blockSize) :
    ∃ v₁ c array₁, writeZone ino index w.files.vol = some ((v₁.inodeTable ino).iZone index, v₁) ∧
      Zoned w.files.vol array ino index m v₁ array₁ ∧
      writeTo who (w.files.fdTable f) data ((v₁.inodeTable ino).iZone index) off (writeLen off count)
        { w with files := { w.files with vol := v₁ } } = ([⟨who, data, (writeLen off count).toNat⟩],
          some (writeLen off count,
            { w with files := { w.files with vol := { v₁ with cache := c } } })) ∧
      Charted (v₁.sized ino c (writeLen off count)) ino array₁ m := by
  obtain ⟨v₁, array₁, zone, zoned⟩ := writeZone_run index charted inside few
  have len := writeLen_toNat count small
  have known := zoned.charted.zones index (by omega) zoned.block
  have positive : 1 ≤ ((v₁.inodeTable ino).iZone index).toNat :=
    Nat.one_le_iff_ne_zero.mpr fun zero => zoned.block (eq_of_toNat_eq zero)
  obtain ⟨c, wrote, idle, size⟩ := writeTo_run who (w.files.fdTable f) data
    (w := { w with files := { w.files with vol := v₁ } }) zoned.charted.idle dev
    (inside_of_diskBlocks positive known.1) known.2.1 small
    (show off.toNat + (writeLen off count).toNat ≤ blockSize by omega)
  refine ⟨v₁, c, array₁, zone, zoned, wrote, ⟨zoned.charted.toSited.sized size fun _ => rfl, idle, ?_⟩⟩
  rw [sized_zone, sized_blocks size]
  exact zoned.charted.room

end

variable (who : ProcNr) (backed : Backed w.files.vol ino array)
  (room : missing (w.files.vol.inodeTable ino).iZone m ≤
    freeBlocks array (diskBlocks w.files.vol.cache))
  (few : m ≤ nrTzones) (dev : (w.files.fdTable f).filpDev = some .rootfs)
  (cached : w.isDirect f = false)
include backed room few dev cached

/-- **One block of the loop**, through the cache. -/
theorem writeBlock_run (index : Nat) (off count data : Word) (inside : index < m)
    (small : off.toNat < blockSize) :
    ∃ v₁ c log array', writeZone ino index w.files.vol = some ((v₁.inodeTable ino).iZone index, v₁) ∧
      (v₁.inodeTable ino).iZone index ≠ 0#32 ∧
      writeTo who (w.files.fdTable f) data ((v₁.inodeTable ino).iZone index) off (writeLen off count)
        { w with files := { w.files with vol := v₁ } } =
          (log, some (writeLen off count,
            { w with files := { w.files with vol := { v₁ with cache := c } } })) ∧
      Written ino m w.files.vol array (index * blockSize + off.toNat)
        (wordsAt w.kernel.memory data (writeLen off count).toNat)
        (v₁.sized ino c (writeLen off count)) array' := by
  obtain ⟨v₁, array₁, zone, zoned⟩ := writeZone_run index (backed.charted room) inside few
  have len := writeLen_toNat count small
  have known := zoned.charted.zones index (by omega) zoned.block
  have positive : 1 ≤ ((v₁.inodeTable ino).iZone index).toNat :=
    Nat.one_le_iff_ne_zero.mpr fun zero => zoned.block (eq_of_toNat_eq zero)
  have fits : off.toNat + (writeLen off count).toNat ≤ blockSize := by omega
  obtain ⟨c, wrote, idle, size⟩ := writeBuffered_run who data
    (w := { w with files := { w.files with vol := v₁ } })
    ((zoned.rest backed.rest).settled fun _ => True)
    (inside_of_diskBlocks positive known.1) fits
  have rest := idle.rest_of_settled
  rw [copyWords_congr (fun i => (wordsAt w.kernel.memory data (writeLen off count).toNat).getD i 0#32)
    fun i inside => by rw [Nat.zero_add, getD_wordsAt inside]] at rest
  have written := zoned.written (c := c) off.toNat
    (wordsAt w.kernel.memory data (writeLen off count).toNat) (by omega)
    (by rwa [length_wordsAt]) (by rwa [length_wordsAt]) size
  rw [length_wordsAt, ofNat_toNat, setWidth_eq] at written
  refine ⟨v₁, c, [⟨who, data, (writeLen off count).toNat⟩], _, zone, zoned.block, ?_, written⟩
  rw [writeTo, dev, show anyBit (w.files.fdTable f).filpFlags oDirect = false from cached]
  exact wrote

/-- **The whole loop**: everything is written. -/
theorem writeBlocks_run (left index : Nat) (off count data ret : Word) (last : index + left ≤ m)
    (small : off.toNat < blockSize) (enough : off.toNat + count.toNat ≤ left * blockSize) :
    ∃ v' array' log, writeBlocks who f ino left index off count data ret w =
        (log, some ((ret + count).toInt, w.stored f v' count)) ∧
      Written ino m w.files.vol array (index * blockSize + off.toNat)
        (wordsAt w.kernel.memory data count.toNat) v' array' := by
  induction left generalizing w index off count data ret array with
  | zero =>
    have none : count = 0#32 := eq_of_toNat_eq (by rw [toNat_ofNat]; omega)
    refine ⟨w.files.vol, array, [], ?_, ?_⟩
    · rw [none, stored_zero, BitVec.add_zero]
      rfl
    · rw [none]
      exact Written.nil backed room
  | succ left ih =>
    obtain ⟨v₁, c, first, array₁, zone, block, wrote, written⟩ :=
      writeBlock_run who backed room few dev cached index off count data (by omega) small
    have len := writeLen_toNat count small
    rw [writeBlocks_block zone block wrote]
    generalize writeLen off count = r at *
    by_cases stop : r = 0#32
    · have none : count = 0#32 := eq_of_toNat_eq (by
        have zero : r.toNat = 0 := by rw [stop]; rfl
        rw [toNat_ofNat]
        omega)
      subst none stop
      rw [sized_zero] at written
      refine ⟨_, _, first, ?_, written⟩
      rw [if_pos rfl, stored_zero, BitVec.add_zero]
    · have fewer : (count - r).toNat = count.toNat - r.toNat :=
        toNat_sub_of_le (le_def.mpr (by omega))
      have split : count.toNat = r.toNat + (count - r).toNat := by omega
      have rest' : 0 + (count - r).toNat ≤ left * blockSize := by
        rw [Nat.succ_mul] at enough
        omega
      obtain ⟨v₂, array₂, log, ran, written'⟩ := ih (w := w.stored f (v₁.sized ino c r) r)
        written.backed written.room (by rw [stored_filp]; exact dev)
          (by rw [World.isDirect, stored_filp]; exact cached)
        (index + 1) 0#32 (count - r) (data + r) (ret + r) (by omega) (by decide) rest'
      refine ⟨v₂, array₂, first ++ log, ?_, ?_⟩
      · rw [if_neg stop, ran, stored_stored, BitVec.add_assoc, BitVec.add_comm r, BitVec.sub_add_cancel]
      · rw [split, wordsAt_add, ofNat_toNat, setWidth_eq]
        refine written.trans ?_
        rw [length_wordsAt]
        by_cases full : r.toNat = blockSize - off.toNat
        · rw [show index * blockSize + off.toNat + r.toNat = (index + 1) * blockSize + (0#32).toNat by
            rw [Nat.succ_mul, full, toNat_ofNat]
            omega]
          exact written'
        · -- the block has not been filled, and nothing is left
          have none : (count - r).toNat = 0 := by omega
          rw [none] at written' ⊢
          exact written'.restart _

/-- **A write to a file.** -/
theorem rootFsWrite_run (data count : Word) {pos : Word}
    (limit : (pos.toNat + count.toNat) / blockSize < m) (position : (w.files.fdTable f).filpPos = pos)
    (inode : (w.files.fdTable f).filpIno = some ino) :
    ∃ v' array' log, rootFsWrite who f data count pos w =
        (log, some ((count.toNat : Int), w.stored f v' count)) ∧
      Written ino m w.files.vol array pos.toNat (wordsAt w.kernel.memory data count.toNat) v'
        array' := by
  have inRange : pos.toNat + count.toNat < nrTzones * blockSize :=
    (Nat.div_lt_iff_lt_mul (by decide)).mp (Nat.lt_of_lt_of_le limit few)
  have start := Nat.div_add_mod' pos.toNat blockSize
  have offset : pos.toNat % blockSize < blockSize := Nat.mod_lt _ (by decide)
  have most : pos.toNat / blockSize ≤ (pos.toNat + count.toNat) / blockSize :=
    Nat.div_le_div_right (Nat.le_add_right ..)
  obtain ⟨v', array', log, ran, written⟩ := writeBlocks_run who backed room few dev cached
    (blocksTo pos pos count) (pos.toNat / blockSize)
    (BitVec.ofNat 32 (pos.toNat % blockSize)) count data 0#32
    (by rw [blocksTo_eq inRange]; omega) (by rwa [offset_small])
    (by
      rw [offset_small, blocksTo_eq inRange]
      unfold blockSize at *
      omega)
  rw [offset_small, start] at written
  refine ⟨v', array', log, ?_, written⟩
  rw [rootFsWrite, readFilp_bind, inode, position]
  refine ran.trans ?_
  unfold nrTzones blockSize at inRange
  rw [BitVec.zero_add, toInt_eq_toNat_of_lt (by omega)]

end Loop

end Winix.Fs
