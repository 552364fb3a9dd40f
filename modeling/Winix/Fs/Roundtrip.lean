/-
**What is written to a file can be read.**

A new file is written to with any sequence of `sys_write` calls, without `O_DIRECT`, on a disk with
enough free blocks. Every call writes everything; afterwards every window of the file is read as it
was written.

* `writeAll_run`: the calls one after the other are one write (`Written`) at the start of the file;
* `file_round_trip`: the results of the calls and of the reads that follow.

The last block that a call looks at can be one of which nothing is written. It is taken all the
same, so that `n` words need `n / BLOCK_SIZE + 1` free blocks.
-/

import Winix.Fs.Filewrite

namespace Winix.Fs

open Kernel Lib List

/-! ### The calls -/

/-- A call of `sys_write`, with the memory of the process at that time. -/
structure WriteCall where
  memory : Memory
  buf : Word
  count : Word

/-- The words of a write. -/
def WriteCall.words (call : WriteCall) : List Word := wordsAt call.memory call.buf call.count.toNat

/-- The calls one after the other, with their results. -/
def writeAll (who : ProcNr) (fd : Int) : World → List WriteCall → Option (List Int × World)
  | w, [] => some ([], w)
  | w, call :: rest => do
    let (ret, w) ← (sysTransfer fopsWrite who fd call.buf call.count).erase
      (w.fed w.files.vol.cache call.memory)
    let (rets, w) ← writeAll who fd w rest
    return (ret :: rets, w)

/-- The descriptor is open on the file, without `O_DIRECT`. -/
structure CachedFile (w : World) (who : ProcNr) (fd : Int) (f : FilpNr) (ino : InodeNr) : Prop where
  opened : ∃ slot, fdOpened (w.files.procs who) fd = some (slot, f)
  inode : (w.files.fdTable f).filpIno = some ino
  dev : (w.files.fdTable f).filpDev = some .rootfs
  flags : anyBit (w.files.fdTable f).filpFlags oDirect = false

/-- A file that has just been made. -/
structure NewFile (w : World) (who : ProcNr) (fd : Int) (f : FilpNr) (ino : InodeNr)
    (array : Nat → Word) :
    Prop where
  file : CachedFile w who fd f ino
  backed : Backed w.files.vol ino array
  start : (w.files.fdTable f).filpPos = 0#32
  iSize : (w.files.vol.inodeTable ino).iSize = 0#32
  zones : ∀ k < nrTzones, (w.files.vol.inodeTable ino).iZone k = 0#32

/-- The other inodes are as before, and so are the blocks that were taken; the block map is not one of
them. -/
def SameElsewhere (array : Nat → Word) (ino : InodeNr) (w w' : World) : Prop :=
  (∀ i, i ≠ ino → w'.files.vol.inodeTable i = w.files.vol.inodeTable i) ∧
    ∀ b < diskBlocks w.files.vol.cache, b ≠ 0 → b ≠ mapBlock → mapBit array b = true →
      shown w'.files.vol.cache b = shown w.files.vol.cache b

section Calls

variable {w w₀ : World} {who : ProcNr} {fd : Int} {f : FilpNr} {ino : InodeNr}
  {array array₀ : Nat → Word}
  {m : Nat} {data : List Word}

theorem sysTransfer_run (fops : ProcNr → FilpNr → Word → Word → AccessM Int) (buf count : Word)
    (opened : ∃ slot, fdOpened (w.files.procs who) fd = some (slot, f)) :
    sysTransfer fops who fd buf count w = fops who f buf count w := by
  obtain ⟨slot, found⟩ := opened
  have read : onFiles (readFsProc who) w = ([], some (w.files.procs who, w)) := rfl
  rw [sysTransfer, Logged.bind_quiet read, found]

theorem fopsWrite_run {buf count : Word} (dev : (w.files.fdTable f).filpDev = some .rootfs) :
    fopsWrite who f buf count w = rootFsWrite who f buf count (w.files.fdTable f).filpPos w := by
  rw [fopsWrite, readFilp_bind, dev]

theorem fopsRead_run {buf count : Word} (dev : (w.files.fdTable f).filpDev = some .rootfs) :
    fopsRead who f buf count w = rootFsRead who f buf count (w.files.fdTable f).filpPos w := by
  rw [fopsRead, readFilp_bind, dev]

/-- **The calls are one write** at the start of the file. -/
theorem writeAll_run (calls : List WriteCall) (file : CachedFile w who fd f ino)
    (written : Written ino m w₀.files.vol array₀ 0 data w.files.vol array)
    (pos : (w.files.fdTable f).filpPos = BitVec.ofNat 32 data.length) (few : m ≤ nrTzones)
    (limit : (data.length + (calls.flatMap WriteCall.words).length) / blockSize < m) :
    ∃ w' array', writeAll who fd w calls = some (calls.map fun call => (call.count.toNat : Int), w') ∧
      CachedFile w' who fd f ino ∧
      Written ino m w₀.files.vol array₀ 0 (data ++ calls.flatMap WriteCall.words) w'.files.vol
        array' := by
  induction calls generalizing w array data with
  | nil =>
    refine ⟨w, array, rfl, file, ?_⟩
    rw [flatMap_nil, append_nil]
    exact written
  | cons call rest ih =>
    rw [flatMap_cons, length_append] at limit
    have length : call.words.length = call.count.toNat := length_wordsAt _
    have short : data.length + call.count.toNat < nrTzones * blockSize := by
      refine (Nat.div_lt_iff_lt_mul (by decide)).mp
        (Nat.lt_of_le_of_lt ?_ (Nat.lt_of_lt_of_le limit few))
      exact Nat.div_le_div_right (by omega)
    have place : (BitVec.ofNat 32 data.length).toNat = data.length := by
      rw [BitVec.toNat_ofNat]
      unfold nrTzones blockSize at short
      omega
    obtain ⟨v', array', log, ran, written'⟩ := rootFsWrite_run who
      (w := w.fed w.files.vol.cache call.memory) written.backed written.room few file.dev
      file.flags call.buf call.count
      (Nat.lt_of_le_of_lt (Nat.div_le_div_right (by omega)) limit) pos file.inode
    rw [← pos] at ran
    have call' :=
      (sysTransfer_run (w := w.fed w.files.vol.cache call.memory) fopsWrite call.buf call.count
      file.opened).trans ((fopsWrite_run (w := w.fed w.files.vol.cache call.memory) file.dev).trans ran)
    have file' :
        CachedFile ((w.fed w.files.vol.cache call.memory).stored f v' call.count) who fd f ino :=
      ⟨file.opened, by rw [stored_filp]; exact file.inode, by rw [stored_filp]; exact file.dev,
        by rw [stored_filp]; exact file.flags⟩
    rw [place, ← Nat.zero_add data.length] at written'
    have both : Written ino m w₀.files.vol array₀ 0 (data ++ call.words) v' array' :=
      written.trans written'
    obtain ⟨w', array'', came, file'', written''⟩ := ih file' both (by
        rw [stored_filp, length_append, length, BitVec.ofNat_add, BitVec.ofNat_toNat,
          BitVec.setWidth_eq]
        exact congrArg (· + call.count) pos)
      (by rw [length_append, Nat.add_assoc]; exact limit)
    refine ⟨w', array'', ?_, file'', ?_⟩
    · rw [writeAll, show (sysTransfer fopsWrite who fd call.buf call.count).erase _ = some (_, _) from
        congrArg Prod.snd call']
      show (writeAll who fd _ rest).bind _ = _
      rw [came]
      rfl
    · rw [flatMap_cons, ← append_assoc]
      exact written''

/-- **A window is read** as it was written. -/
theorem read_window (file : CachedFile w who fd f ino)
    (written : Written ino m w₀.files.vol array₀ 0 data w.files.vol array)
    (short : data.length < nrTzones * blockSize) (iSize : (w₀.files.vol.inodeTable ino).iSize = 0#32)
    {pos count : Word} (inside : pos.toNat + count.toNat ≤ data.length) (buf : Word) :
    ∃ w', (sysTransfer fopsRead who fd buf count).erase (w.seek f pos) =
      some ((count.toNat : Int), w') ∧
      wordsAt w'.kernel.memory buf count.toNat = (data.drop pos.toNat).take count.toNat ∧
      Rest w'.files.vol.cache array ∧ w'.files.vol.inodeTable = w.files.vol.inodeTable := by
  have size : (w.files.vol.inodeTable ino).iSize.toNat = data.length := by
    rw [written.iSize, iSize, BitVec.zero_add, BitVec.toNat_ofNat]
    unfold nrTzones blockSize at short
    omega
  have position : ((w.seek f pos).files.fdTable f).filpPos = pos := by rw [seek_filp]
  have dev : ((w.seek f pos).files.fdTable f).filpDev = some .rootfs := by
    rw [seek_filp]; exact file.dev
  have flags : (w.seek f pos).isDirect f = false := by rw [World.isDirect, seek_filp]; exact file.flags
  have opened : OpenFile (fun _ => True) (w.seek f pos) f ino :=
    ⟨by rw [seek_filp]; exact file.inode, dev, fun k inside => written.backed.placed inside⟩
  have feeds :
      Feeds ((w.seek f pos).isDirect f) (fun _ => True) array (w.seek f pos).files.vol.cache := by
    rw [flags]
    exact written.backed.rest.settled _
  obtain ⟨c, feeds', -, ran⟩ := rootFsRead_solid who buf opened
    (show ((w.seek f pos).files.fdTable f).filpPos.toNat + count.toNat < nrTzones * blockSize by
      rw [position]; omega) feeds
    (by rw [position]; exact Nat.le_trans inside (Nat.le_of_eq size.symm)) (fun i less => by
      have here := (written.data (pos.toNat + i) (by omega)).2.1
      rw [position]
      rwa [Nat.zero_add] at here)
  have words : (List.range count.toNat).map (fun i => fileWord (w.files.vol.inodeTable ino).iZone array
      (((w.seek f pos).files.fdTable f).filpPos.toNat + i)) =
        (data.drop pos.toNat).take count.toNat := by
    refine ext_getElem (by simp; omega) fun i here _ => ?_
    have less : i < count.toNat := by simpa using here
    have word := (written.data (pos.toNat + i) (by omega)).2.2
    rw [Nat.zero_add, getD_eq_getElem _ _ (by omega)] at word
    rw [getElem_map, getElem_range, getElem_take, getElem_drop, position]
    exact word
  refine ⟨_, congrArg Prod.snd ((sysTransfer_run (w := w.seek f pos) fopsRead _ _ file.opened).trans
    ((fopsRead_run dev).trans ran)), ?_, ?_, rfl⟩
  · rw [← words]
    exact wordsAt_putList_map count.isLt
  · rw [flags] at feeds'
    exact Idle.rest_of_settled feeds'

theorem Written.sameElsewhere {w' : World} {start : Nat}
    (written : Written ino m w₀.files.vol array₀ start data w.files.vol array)
    (zones : ∀ k < nrTzones, (w₀.files.vol.inodeTable ino).iZone k = 0#32)
    (before : Backed w₀.files.vol ino array₀) (after : Rest w'.files.vol.cache array)
    (table : w'.files.vol.inodeTable = w.files.vol.inodeTable) : SameElsewhere array₀ ino w₀ w' := by
  refine ⟨fun i apart => (congrFun table i).trans (written.others i apart),
    fun b inDisk positive notMap set => ?_⟩
  have new : shown w'.files.vol.cache b = slice array (b * blockSize) blockSize :=
    after.idle.stores.shown_allowed positive
  have old : shown w₀.files.vol.cache b = slice array₀ (b * blockSize) blockSize :=
    before.rest.idle.stores.shown_allowed positive
  rw [new, old]
  refine slice_congr fun k small => written.foreign _ ?_ ?_ ?_ fun j inside used =>
    absurd (zones j inside) used
  · rw [div_blockSize small]
    exact Nat.lt_of_lt_of_le inDisk before.most
  · rw [div_blockSize small]
    exact set
  · rw [div_blockSize small]
    exact notMap

end Calls

/-- **What is written to a new file can be read.** Every call returns its count; afterwards every
window of the file is read as it was written, and nothing else has changed. -/
theorem file_round_trip {w : World} {who : ProcNr} {fd : Int} {f : FilpNr} {ino : InodeNr}
    {array : Nat → Word} (calls : List WriteCall) (new : NewFile w who fd f ino array)
    (short : (calls.flatMap WriteCall.words).length < nrTzones * blockSize)
    (enough : (calls.flatMap WriteCall.words).length / blockSize + 1 ≤
      freeBlocks array (diskBlocks w.files.vol.cache)) :
    ∃ w', writeAll who fd w calls = some (calls.map fun call => (call.count.toNat : Int), w') ∧
      SameElsewhere array ino w w' ∧
      ∀ pos count buf : Word, pos.toNat + count.toNat ≤ (calls.flatMap WriteCall.words).length →
        ∃ w'', (sysTransfer fopsRead who fd buf count).erase (w'.seek f pos) =
            some ((count.toNat : Int), w'') ∧
          wordsAt w''.kernel.memory buf count.toNat =
            ((calls.flatMap WriteCall.words).drop pos.toNat).take count.toNat ∧
          SameElsewhere array ino w w'' := by
  have few : (calls.flatMap WriteCall.words).length / blockSize + 1 ≤ nrTzones :=
    Nat.div_lt_of_lt_mul (Nat.mul_comm .. ▸ short)
  have holes : missing (w.files.vol.inodeTable ino).iZone
      ((calls.flatMap WriteCall.words).length / blockSize + 1) ≤
      freeBlocks array (diskBlocks w.files.vol.cache) :=
    Nat.le_trans (countP_le_length.trans (length_range).le) enough
  have nothing : Written ino _ w.files.vol array 0 [] w.files.vol array := Written.nil new.backed holes
  obtain ⟨w', array', ran, file, written⟩ := writeAll_run calls new.file nothing new.start few
    (by rw [length_nil, Nat.zero_add]; exact Nat.lt_succ_self _)
  rw [nil_append] at written
  refine ⟨w', ran, written.sameElsewhere new.zones new.backed written.backed.rest rfl,
    fun pos count buf inside => ?_⟩
  obtain ⟨w'', read, words, rest, table⟩ := read_window file written short new.iSize inside buf
  exact ⟨w'', read, words, written.sameElsewhere new.zones new.backed rest table⟩

/-- A new file on the image of `makefs`. -/
def newFile : World := fileWorld (plainFile [] 0) 0 0 fun _ => 0#32

theorem newFile_new : NewFile newFile 1 0 fileFilp fileSlot image := by
  have tree : Tree (imageVolume plainLayout) image := image_tree
  refine ⟨⟨⟨0, rfl⟩, rfl, rfl, rfl⟩,
    ⟨⟨tree.formatted.bounded, rfl, by decide, by decide, by decide +kernel,
    by decide +kernel, fun k _ used => absurd rfl used, fun j _ k _ used => absurd rfl used⟩,
      tree.rest⟩, rfl, rfl,
    fun k _ => rfl⟩

theorem newFile_free : freeBlocks image (diskBlocks newFile.files.vol.cache) = 45 := by decide +kernel

theorem newFile_room : missing (newFile.files.vol.inodeTable fileSlot).iZone nrTzones ≤
    freeBlocks image (diskBlocks newFile.files.vol.cache) := by
  rw [newFile_free]
  exact Nat.le_trans (countP_le_length.trans (length_range).le) (by decide)

/-- A thousand words and a hundred more, from different places. -/
def twoCalls : List WriteCall := [⟨fun a => a, 4096#32, 1000#32⟩, ⟨fun a => a + 1, 8192#32, 100#32⟩]

/-- They are in two blocks, and are read back. -/
theorem twoCalls_round_trip :
    ∃ w', writeAll 1 0 newFile twoCalls = some ([1000, 100], w') ∧
      SameElsewhere image fileSlot newFile w' ∧
      ∀ pos count buf : Word, pos.toNat + count.toNat ≤ (twoCalls.flatMap WriteCall.words).length →
        ∃ w'', (sysTransfer fopsRead 1 0 buf count).erase (w'.seek fileFilp pos) =
            some ((count.toNat : Int), w'') ∧
          wordsAt w''.kernel.memory buf count.toNat =
            ((twoCalls.flatMap WriteCall.words).drop pos.toNat).take count.toNat ∧
          SameElsewhere image fileSlot newFile w'' := by
  have length : (twoCalls.flatMap WriteCall.words).length = 1100 := by
    simp [twoCalls, WriteCall.words]
  exact file_round_trip twoCalls newFile_new (by rw [length]; decide)
    (by rw [length, newFile_free]; decide)

end Winix.Fs
