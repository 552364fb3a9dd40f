/-
**The end of the zone array.**

`root_fs_read` and `root_fs_write` go over the entries of `i_zone` up to the block of position plus
count, and never look at `NR_TZONES`. The loops are here once more with a log of the entries that
they access.

* `rootFsReadIndexes_erase`, `rootFsWriteIndexes_erase`: without the log they are the loops of the code;
* `InZones`: the entries up to the last block are in the array;
* `zone_bound_iff`: when the accesses stay in the array.
-/

import Winix.Fs.Sizes

namespace Winix.Fs

open Kernel Lib List BitVec

/-! ### The loops with the entries that they access -/

/-- A program that writes down indices of `i_zone`. -/
abbrev IndexM := Logged Nat World

/-- A program that accesses no entry. -/
def quietly {α : Type} (x : AccessM α) : IndexM α := Logged.lift x.erase

/-- The loop of `root_fs_read` at one block, with what the rest of the loop does. -/
def readIndex (who : ProcNr) (f : FilpNr) (ino : InodeNr)
    (rest : Nat → Word → Word → Word → Word → IndexM Int)
    (index : Nat) (off count data ret : Word) : IndexM Int := do
  Logged.write [index]
  let inode ← quietly (onDisks (readIno ino))
  let filp ← quietly (onFiles (readFilp f))
  let bnr ← quietly (onDisks (inode.zoneAt index))
  if bnr = 0#32 then rest (index + 1) off count data ret
  else do
    let len := readLen inode.iSize off count
    let r ← quietly (readFrom who filp data bnr off len)
    quietly (advancePos f r)
    if r = 0#32 then return (ret + r).toInt
    else rest (index + 1) 0#32 (count - len) (data + r) (ret + r)

/-- The loop of `root_fs_read`. -/
def readIndexes (who : ProcNr) (f : FilpNr) (ino : InodeNr) :
    Nat → Nat → Word → Word → Word → Word → IndexM Int
  | 0 => fun _ _ _ _ ret => return ret.toInt
  | left + 1 => readIndex who f ino (readIndexes who f ino left)

/-- The loop of `root_fs_write` at one block; the entry of a new block is assigned, too. -/
def writeIndex (who : ProcNr) (f : FilpNr) (ino : InodeNr)
    (rest : Nat → Word → Word → Word → Word → IndexM Int)
    (index : Nat) (off count data ret : Word) : IndexM Int := do
  Logged.write [index]
  let bnr ← quietly (onDisks (writeZone ino index))
  let filp ← quietly (onFiles (readFilp f))
  if bnr = 0#32 then return enospc
  else do
    let len := writeLen off count
    let r ← quietly (writeTo who filp data bnr off len)
    if r = 0#32 then return ret.toInt
    else do
      quietly (advancePos f r)
      quietly (growSize ino r)
      rest (index + 1) 0#32 (count - len) (data + r) (ret + r)

/-- The loop of `root_fs_write`. -/
def writeIndexes (who : ProcNr) (f : FilpNr) (ino : InodeNr) :
    Nat → Nat → Word → Word → Word → Word → IndexM Int
  | 0 => fun _ _ _ _ ret => return ret.toInt
  | left + 1 => writeIndex who f ino (writeIndexes who f ino left)

/-- `root_fs_read`. -/
def rootFsReadIndexes (who : ProcNr) (f : FilpNr) (data count offset : Word) : IndexM Int := do
  let filp ← quietly (onFiles (readFilp f))
  let ino ← quietly (nonnull filp.filpIno)
  readIndexes who f ino (blocksTo offset filp.filpPos count) (offset.toNat / blockSize)
    (BitVec.ofNat 32 (offset.toNat % blockSize)) count data 0#32

/-- `root_fs_write`. -/
def rootFsWriteIndexes (who : ProcNr) (f : FilpNr) (data count offset : Word) : IndexM Int := do
  let filp ← quietly (onFiles (readFilp f))
  let ino ← quietly (nonnull filp.filpIno)
  writeIndexes who f ino (blocksTo offset filp.filpPos count) (offset.toNat / blockSize)
    (BitVec.ofNat 32 (offset.toNat % blockSize)) count data 0#32

section Erase

variable {α β : Type} {w : World} {who : ProcNr} {f : FilpNr} {ino : InodeNr} {left index : Nat}
  {off count data ret offset : Word}

theorem quietly_bind_erase {x : AccessM α} {fn : α → IndexM β} {other : α → AccessM β}
    (same : ∀ a s, (fn a).erase s = (other a).erase s) :
    (quietly x >>= fn).erase w = (x >>= other).erase w := by
  refine (Logged.lift_bind_erase same).trans ?_
  rfl

theorem readIndexes_erase : (readIndexes who f ino left index off count data ret).erase w =
    (readBlocks who f ino left index off count data ret).erase w := by
  induction left generalizing w index off count data ret with
  | zero => rfl
  | succ left ih =>
    rw [readIndexes, readIndex, Logged.write_bind_erase, readBlocks]
    refine quietly_bind_erase fun inode w => quietly_bind_erase fun filp w =>
      quietly_bind_erase fun bnr w => ?_
    by_cases hole : bnr = 0#32
    · rw [if_pos hole, if_pos hole]
      exact ih
    · rw [if_neg hole, if_neg hole]
      refine quietly_bind_erase fun r w => quietly_bind_erase fun _ w => ?_
      by_cases stop : r = 0#32
      · rw [if_pos stop, if_pos stop]
        rfl
      · rw [if_neg stop, if_neg stop]
        exact ih

theorem writeIndexes_erase : (writeIndexes who f ino left index off count data ret).erase w =
    (writeBlocks who f ino left index off count data ret).erase w := by
  induction left generalizing w index off count data ret with
  | zero => rfl
  | succ left ih =>
    rw [writeIndexes, writeIndex, Logged.write_bind_erase, writeBlocks]
    refine quietly_bind_erase fun bnr w => quietly_bind_erase fun filp w => ?_
    by_cases none : bnr = 0#32
    · rw [if_pos none, if_pos none]
      rfl
    · rw [if_neg none, if_neg none]
      refine quietly_bind_erase fun r w => ?_
      by_cases stop : r = 0#32
      · rw [if_pos stop, if_pos stop]
        rfl
      · rw [if_neg stop, if_neg stop]
        exact quietly_bind_erase fun _ w => quietly_bind_erase fun _ w => ih

/-- **The log changes nothing.** -/
theorem rootFsReadIndexes_erase : (rootFsReadIndexes who f data count offset).erase w =
    (rootFsRead who f data count offset).erase w :=
  quietly_bind_erase fun _ _ => quietly_bind_erase fun _ _ => readIndexes_erase

theorem rootFsWriteIndexes_erase : (rootFsWriteIndexes who f data count offset).erase w =
    (rootFsWrite who f data count offset).erase w :=
  quietly_bind_erase fun _ _ => quietly_bind_erase fun _ _ => writeIndexes_erase

end Erase

/-! ### Which entries are accessed -/

section Entries

variable {α β : Type} {w : World} {who : ProcNr} {f : FilpNr} {ino : InodeNr} {left index k : Nat}
  {off count data ret : Word}

theorem quietly_bind_log {x : AccessM α} {fn : α → IndexM β} {a : α} {w' : World}
    (ran : x.erase w = some (a, w')) : (quietly x >>= fn).log w = (fn a).log w' :=
  Logged.lift_log_run ran

theorem mem_quietly_bind {x : AccessM α} {fn : α → IndexM β} (member : k ∈ (quietly x >>= fn).log w) :
    ∃ a w', k ∈ (fn a).log w' ∧ (quietly x >>= fn).erase w = (fn a).erase w' := by
  cases came : x.erase w with
  | none =>
    rw [Logged.bind_log, show (quietly x).erase w = none from came] at member
    exact absurd member not_mem_nil
  | some result =>
    have ran : x.erase w = some (result.1, result.2) := came
    rw [quietly_bind_log ran] at member
    exact ⟨_, _, member, Logged.bind_run ran⟩

theorem readIndexes_first :
    index ∈ (readIndexes who f ino (left + 1) index off count data ret).log w := by
  rw [readIndexes, readIndex, Logged.write_bind_log, singleton_append]
  exact mem_cons_self

theorem writeIndexes_first :
    index ∈ (writeIndexes who f ino (left + 1) index off count data ret).log w := by
  rw [writeIndexes, writeIndex, Logged.write_bind_log, singleton_append]
  exact mem_cons_self

theorem mem_readIndexes (member : k ∈ (readIndexes who f ino left index off count data ret).log w) :
    index ≤ k ∧ k < index + left := by
  induction left generalizing w index off count data ret with
  | zero => exact absurd member not_mem_nil
  | succ left ih =>
    rw [readIndexes, readIndex, Logged.write_bind_log, singleton_append, mem_cons] at member
    obtain here | later := member
    · omega
    obtain ⟨inode, w, later, -⟩ := mem_quietly_bind later
    obtain ⟨filp, w, later, -⟩ := mem_quietly_bind later
    obtain ⟨bnr, w, later, -⟩ := mem_quietly_bind later
    split at later
    · have further := ih later
      omega
    · obtain ⟨r, w, later, -⟩ := mem_quietly_bind later
      obtain ⟨_, w, later, -⟩ := mem_quietly_bind later
      split at later
      · exact absurd later not_mem_nil
      · have further := ih later
        omega

theorem mem_writeIndexes (member : k ∈ (writeIndexes who f ino left index off count data ret).log w) :
    index ≤ k ∧ k < index + left := by
  induction left generalizing w index off count data ret with
  | zero => exact absurd member not_mem_nil
  | succ left ih =>
    rw [writeIndexes, writeIndex, Logged.write_bind_log, singleton_append, mem_cons] at member
    obtain here | later := member
    · omega
    obtain ⟨bnr, w, later, -⟩ := mem_quietly_bind later
    obtain ⟨filp, w, later, -⟩ := mem_quietly_bind later
    dsimp only at later
    split at later
    · exact absurd later not_mem_nil
    obtain ⟨r, w, later, -⟩ := mem_quietly_bind later
    split at later
    · exact absurd later not_mem_nil
    obtain ⟨_, w, later, -⟩ := mem_quietly_bind later
    obtain ⟨_, w, later, -⟩ := mem_quietly_bind later
    have further := ih later
    omega

/-- A read that comes back has not left the array. -/
theorem readIndexes_came {result : Int × World}
    (came : (readIndexes who f ino left index off count data ret).erase w = some result)
    (member : k ∈ (readIndexes who f ino left index off count data ret).log w) : k < nrTzones := by
  induction left generalizing w index off count data ret with
  | zero => exact absurd member not_mem_nil
  | succ left ih =>
    have inside : index < nrTzones := by
      by_contra behind
      rw [readIndexes_erase, Logged.erase, readBlocks_outside (Nat.le_of_not_lt behind)] at came
      cases came
    rw [readIndexes, readIndex, Logged.write_bind_erase] at came
    rw [readIndexes, readIndex, Logged.write_bind_log, singleton_append, mem_cons] at member
    obtain rfl | later := member
    · exact inside
    obtain ⟨inode, w₁, later, same⟩ := mem_quietly_bind later
    rw [same] at came
    obtain ⟨filp, w₂, later, same⟩ := mem_quietly_bind later
    rw [same] at came
    obtain ⟨bnr, w₃, later, same⟩ := mem_quietly_bind later
    rw [same] at came
    by_cases hole : bnr = 0#32
    · rw [if_pos hole] at came later
      exact ih came later
    rw [if_neg hole] at came later
    obtain ⟨r, w₄, later, same⟩ := mem_quietly_bind later
    rw [same] at came
    obtain ⟨_, w₅, later, same⟩ := mem_quietly_bind later
    rw [same] at came
    by_cases stop : r = 0#32
    · rw [if_pos stop] at later
      exact absurd later not_mem_nil
    · rw [if_neg stop] at came later
      exact ih came later

theorem readIndexes_hole (inside : index < nrTzones)
    (hole : (w.files.vol.inodeTable ino).iZone index = 0#32) :
    (readIndexes who f ino (left + 1) index off count data ret).log w =
      index :: (readIndexes who f ino left (index + 1) off count data ret).log w := by
  have read : (onDisks (readIno ino)).erase w = some (w.files.vol.inodeTable ino, w) := rfl
  have filp : (onFiles (readFilp f)).erase w = some (w.files.fdTable f, w) := rfl
  rw [readIndexes, readIndex, Logged.write_bind_log, quietly_bind_log read, quietly_bind_log filp,
    Inode.zoneAt_run inside, quietly_bind_log rfl, if_pos hole]
  rfl

theorem readIndexes_block {log : List Transfer} {r : Word} {cache : Cache} {memory : Memory}
    (inside : index < nrTzones) (block : (w.files.vol.inodeTable ino).iZone index ≠ 0#32)
    (came : readFrom who (w.files.fdTable f) data ((w.files.vol.inodeTable ino).iZone index) off
      (readLen (w.files.vol.inodeTable ino).iSize off count) w = (log, some (r, w.fed cache memory))) :
    (readIndexes who f ino (left + 1) index off count data ret).log w =
      index :: if r = 0#32 then []
        else (readIndexes who f ino left (index + 1) 0#32
          (count - readLen (w.files.vol.inodeTable ino).iSize off count) (data + r) (ret + r)).log
          (w.moved f cache memory r) := by
  have read : (onDisks (readIno ino)).erase w = some (w.files.vol.inodeTable ino, w) := rfl
  have filp : (onFiles (readFilp f)).erase w = some (w.files.fdTable f, w) := rfl
  have moves : (advancePos f r).erase (w.fed cache memory) = some (⟨⟩, w.moved f cache memory r) := rfl
  rw [readIndexes, readIndex, Logged.write_bind_log, quietly_bind_log read, quietly_bind_log filp,
    Inode.zoneAt_run inside, quietly_bind_log rfl, if_neg block,
    quietly_bind_log (congrArg Prod.snd came),
    quietly_bind_log moves]
  by_cases stop : r = 0#32
  · rw [if_pos stop, if_pos stop]
    rfl
  · rw [if_neg stop, if_neg stop]
    rfl

theorem writeIndexes_block {v₁ : Volume} {bnr r : Word} {c : Cache} {log : List Transfer}
    (zone : writeZone ino index w.files.vol = some (bnr, v₁)) (block : bnr ≠ 0#32)
    (wrote : writeTo who (w.files.fdTable f) data bnr off (writeLen off count)
      { w with files := { w.files with vol := v₁ } } =
        (log, some (r, { w with files := { w.files with vol := { v₁ with cache := c } } })))
    (some : r ≠ 0#32) :
    (writeIndexes who f ino (left + 1) index off count data ret).log w =
      index :: (writeIndexes who f ino left (index + 1) 0#32 (count - writeLen off count) (data + r)
        (ret + r)).log (w.stored f (v₁.sized ino c r) r) := by
  have filp : (onFiles (readFilp f)).erase { w with files := { w.files with vol := v₁ } } =
    Option.some (w.files.fdTable f, { w with files := { w.files with vol := v₁ } }) := rfl
  rw [writeIndexes, writeIndex, Logged.write_bind_log, quietly_bind_log (onDisks_run zone),
    quietly_bind_log filp,
    if_neg block, quietly_bind_log (congrArg Prod.snd wrote), if_neg some]
  rfl

end Entries

/-! ### A read that stops -/

/-- The blocks of the file from this entry on. -/
def blocksFrom (zone : Nat → Word) (index : Nat) : Nat :=
  (List.range nrTzones).countP fun k => index ≤ k ∧ zone k ≠ 0#32

/-- The read comes to a block of which it reads nothing: the offset is the size, at first, or both
are zero, later. -/
def ReadStops (zone : Nat → Word) (size off index : Nat) : Prop :=
  (off = size ∧ 1 ≤ blocksFrom zone index) ∨ (size = 0 ∧ 2 ≤ blocksFrom zone index)

section Stops

variable {zone : Nat → Word} {size off index : Nat}

theorem blocksFrom_hole (hole : zone index = 0#32) :
    blocksFrom zone (index + 1) = blocksFrom zone index := by
  refine countP_congr fun k _ => ?_
  rw [decide_eq_true_iff, decide_eq_true_iff]
  refine ⟨fun ⟨least, block⟩ => ⟨by omega, block⟩, fun ⟨least, block⟩ => ⟨?_, block⟩⟩
  have apart : k ≠ index := fun same => block (same ▸ hole)
  omega

theorem blocksFrom_block (inside : index < nrTzones) (block : zone index ≠ 0#32) :
    blocksFrom zone (index + 1) + 1 = blocksFrom zone index := by
  refine countP_less nodup_range (mem_range.mpr inside) (decide_eq_true ⟨Nat.le_refl _, block⟩)
    (decide_eq_false fun ⟨least, _⟩ => by omega) fun k _ apart => ?_
  rw [decide_eq_decide]
  exact and_congr_left fun _ => by omega

theorem blocksFrom_end (behind : nrTzones ≤ index) : blocksFrom zone index = 0 := by
  refine countP_eq_zero.mpr fun k member => ?_
  have inside := mem_range.mp member
  rw [decide_eq_true_iff]
  omega

theorem readStops_hole (hole : zone index = 0#32) :
    ReadStops zone size off (index + 1) ↔ ReadStops zone size off index := by
  rw [ReadStops, ReadStops, blocksFrom_hole hole]

theorem readStops_block (inside : index < nrTzones) (block : zone index ≠ 0#32) (apart : off ≠ size) :
    ReadStops zone size 0 (index + 1) ↔ ReadStops zone size off index := by
  have less := blocksFrom_block inside block
  unfold ReadStops
  omega

end Stops

section Reads

variable {w : World} {who : ProcNr} {f : FilpNr} {ino : InodeNr} {own : Nat → Prop} {src : Nat → Word}
  {left index : Nat} {off count data ret : Word}

theorem readFrom_known (who : ProcNr) (count data : Word) (file : OpenFile own w f ino)
    (feeds : Feeds (w.isDirect f) own src w.files.vol.cache) (inside : index < nrTzones)
    (block : (w.files.vol.inodeTable ino).iZone index ≠ 0#32) (small : off.toNat < blockSize) :
    ∃ log c memory, Feeds (w.isDirect f) own src c ∧
      c.rootfsDiskSize = w.files.vol.cache.rootfsDiskSize ∧
      readFrom who (w.files.fdTable f) data ((w.files.vol.inodeTable ino).iZone index) off
        (readLen (w.files.vol.inodeTable ino).iSize off count) w =
          (log, some (readLen (w.files.vol.inodeTable ino).iSize off count, w.fed c memory)) := by
  have known := (file.placed index inside).resolve_left block
  by_cases within : off.toNat ≤ (w.files.vol.inodeTable ino).iSize.toNat
  · have len := readLen_toNat count (Nat.le_of_lt small) within
    have most := pieceLen_le_block (w.files.vol.inodeTable ino).iSize.toNat off.toNat count.toNat
    obtain ⟨c, feeds', size, came⟩ := readFrom_run who data feeds file.dev rfl known.1 known.2 small
      (show off.toNat + (readLen (w.files.vol.inodeTable ino).iSize off count).toNat ≤
        blockSize by omega)
    exact ⟨_, c, _, feeds', size, came⟩
  · rw [readLen_behind count small (Nat.lt_of_not_le within)]
    exact readFrom_behind who data feeds file.dev rfl known.1 small (Nat.lt_of_not_le within)

theorem readLen_eq_zero {iSize : Word} (small : off.toNat < blockSize) (some : 0 < count.toNat) :
    readLen iSize off count = 0#32 ↔ off.toNat = iSize.toNat := by
  rw [← toNat_inj]
  by_cases within : off.toNat ≤ iSize.toNat
  · rw [readLen_toNat count (Nat.le_of_lt small) within, pieceLen, toNat_ofNat]
    split <;> omega
  · rw [readLen_behind count small (Nat.lt_of_not_le within), toNat_sub, toNat_ofNat]
    have bound := off.isLt
    omega

/-- **The read stops in the array.** -/
theorem readIndexes_stop (file : OpenFile own w f ino)
    (feeds : Feeds (w.isDirect f) own src w.files.vol.cache) (small : off.toNat < blockSize)
    (stops : ReadStops (w.files.vol.inodeTable ino).iZone (w.files.vol.inodeTable ino).iSize.toNat
      off.toNat index)
    {k : Nat} (member : k ∈ (readIndexes who f ino left index off count data ret).log w) :
    k < nrTzones := by
  induction left generalizing w index off count data ret with
  | zero => exact absurd member not_mem_nil
  | succ left ih =>
    have inside : index < nrTzones := by
      by_contra behind
      rw [ReadStops, blocksFrom_end (Nat.le_of_not_lt behind)] at stops
      omega
    by_cases hole : (w.files.vol.inodeTable ino).iZone index = 0#32
    · rw [readIndexes_hole inside hole, mem_cons] at member
      obtain rfl | later := member
      · exact inside
      · exact ih file feeds small ((readStops_hole hole).mpr stops) later
    · obtain ⟨log, c, memory, feeds', size, came⟩ :=
        readFrom_known who count data file feeds inside hole small
      rw [readIndexes_block inside hole came, mem_cons] at member
      obtain rfl | later := member
      · exact inside
      split at later
      · exact absurd later not_mem_nil
      · rename_i some
        have apart : off.toNat ≠ (w.files.vol.inodeTable ino).iSize.toNat := fun same => some (by
          rw [← toNat_inj, readLen_toNat count (Nat.le_of_lt small) (Nat.le_of_eq same), pieceLen,
            toNat_ofNat]
          split <;> omega)
        refine ih (file.moved _ _ size) (by rw [isDirect_moved]; exact feeds') (by decide) ?_ later
        exact (readStops_block inside hole apart).mpr stops

/-- **The read gets to the end of the array** otherwise. -/
theorem readIndexes_reach (file : OpenFile own w f ino)
    (feeds : Feeds (w.isDirect f) own src w.files.vol.cache) (small : off.toNat < blockSize)
    (inside : index ≤ nrTzones) (far : nrTzones < index + left)
    (enough : nrTzones * blockSize ≤ count.toNat + index * blockSize + off.toNat)
    (fits : count.toNat + off.toNat < 2 ^ 32)
    (goes : ¬ ReadStops (w.files.vol.inodeTable ino).iZone (w.files.vol.inodeTable ino).iSize.toNat
      off.toNat
      index) :
    nrTzones ∈ (readIndexes who f ino left index off count data ret).log w := by
  induction left generalizing w index off count data ret with
  | zero => omega
  | succ left ih =>
    by_cases last : index = nrTzones
    · rw [← last]
      exact readIndexes_first
    have inside : index < nrTzones := by omega
    by_cases hole : (w.files.vol.inodeTable ino).iZone index = 0#32
    · rw [readIndexes_hole inside hole]
      refine mem_cons_of_mem _ (ih file feeds small inside (by omega) ?_ fits ?_)
      · rw [Nat.succ_mul]
        omega
      · rwa [readStops_hole hole]
    · have less := blocksFrom_block inside hole
      have apart : off.toNat ≠ (w.files.vol.inodeTable ino).iSize.toNat := by
        unfold ReadStops at goes
        omega
      have room : 0 < count.toNat := by
        unfold nrTzones blockSize at *
        omega
      obtain ⟨log, c, memory, feeds', size, came⟩ :=
        readFrom_known who count data file feeds inside hole small
      rw [readIndexes_block inside hole came, if_neg (mt (readLen_eq_zero small room).mp apart)]
      have more : count.toNat - (blockSize - off.toNat) ≤
          (count - readLen (w.files.vol.inodeTable ino).iSize off count).toNat := by
        by_cases within : off.toNat ≤ (w.files.vol.inodeTable ino).iSize.toNat
        · have len := readLen_toNat count (Nat.le_of_lt small) within
          have block := pieceLen_le_block (w.files.vol.inodeTable ino).iSize.toNat off.toNat count.toNat
          have most := pieceLen_le_count (w.files.vol.inodeTable ino).iSize.toNat off.toNat count.toNat
          rw [toNat_sub_of_le (le_def.mpr (by omega))]
          omega
        · rw [readLen_behind count small (Nat.lt_of_not_le within)]
          bv_omega
      have bound := (count - readLen (w.files.vol.inodeTable ino).iSize off count).isLt
      refine mem_cons_of_mem _ (ih (file.moved _ _ size) (by rw [isDirect_moved]; exact feeds')
        (by decide)
        inside (by omega) ?_ (by rw [toNat_ofNat]; omega) ?_)
      · rw [Nat.succ_mul, toNat_ofNat]
        omega
      · exact mt (readStops_block inside hole apart).mp goes

end Reads

/-! ### A write -/

section Writes

variable {w : World} {who : ProcNr} {f : FilpNr} {ino : InodeNr} {array : Nat → Word} {left index : Nat}
  {off count data ret : Word}

/-- **The write gets to the end of the array** if the disk has room. -/
theorem writeIndexes_reach (charted : Charted w.files.vol ino array nrTzones)
    (dev : (w.files.fdTable f).filpDev = some .rootfs)
    (small : off.toNat < blockSize) (inside : index ≤ nrTzones) (far : nrTzones < index + left)
    (enough : nrTzones * blockSize ≤ count.toNat + index * blockSize + off.toNat) :
    nrTzones ∈ (writeIndexes who f ino left index off count data ret).log w := by
  induction left generalizing w index off count data ret array with
  | zero => omega
  | succ left ih =>
    by_cases last : index = nrTzones
    · rw [← last]
      exact writeIndexes_first
    have inside : index < nrTzones := by omega
    obtain ⟨v₁, c, array₁, zone, zoned, wrote, charted'⟩ :=
      writeBlock_charted who (Nat.le_refl _) dev index off count data charted inside small
    have len := writeLen_toNat count small
    have some : writeLen off count ≠ 0#32 := fun zero => by
      rw [zero, toNat_ofNat] at len
      unfold nrTzones blockSize at *
      omega
    rw [writeIndexes_block zone zoned.block wrote some]
    have fewer : (count - writeLen off count).toNat = count.toNat - (writeLen off count).toNat :=
      toNat_sub_of_le (le_def.mpr (by omega))
    refine mem_cons_of_mem _ (ih charted' (by rw [stored_filp]; exact dev)
      (by decide) inside (by omega) ?_)
    rw [Nat.succ_mul, toNat_ofNat, fewer]
    omega

end Writes

/-! ### The calls -/

/-- The read accesses the entries of the array only. -/
def ReadBounded (w : World) (who : ProcNr) (f : FilpNr) (data count : Word) : Prop :=
  ∀ k ∈ (rootFsReadIndexes who f data count (w.files.fdTable f).filpPos).log w, k < nrTzones

/-- The inode is as before, up to its zones and its sizes. -/
def SameFields (before after : Inode) : Prop :=
  after = { before with iZone := after.iZone, iSize := after.iSize, iTotalSize := after.iTotalSize }

/-- The write accesses the entries of the array only, and does not get past the end of the largest
file. -/
structure WriteBounded (w : World) (who : ProcNr) (f : FilpNr) (ino : InodeNr) (data count : Word) :
    Prop where
  zones : ∀ k ∈ (rootFsWriteIndexes who f data count (w.files.fdTable f).filpPos).log w, k < nrTzones
  short : nrTzones * blockSize < (w.files.fdTable f).filpPos.toNat + count.toNat →
    ∀ written w', (rootFsWrite who f data count (w.files.fdTable f).filpPos).erase w =
      some (written, w') →
      written < count.toNat ∧ SameFields (w.files.vol.inodeTable ino) (w'.files.vol.inodeTable ino)

theorem sameFields_of_bare {before after : Inode} {size : Word}
    (bare : after.bare = { before.bare with iSize := size }) : SameFields before after := by
  cases before
  cases after
  simp_all [SameFields, Inode.bare]

section Calls

variable {w : World} {who : ProcNr} {f : FilpNr} {ino : InodeNr} {data count : Word} {k : Nat}
variable {pos : Word}

theorem fileIndexes_log {loop : Filp → InodeNr → IndexM Int}
    (inode : (w.files.fdTable f).filpIno = some ino) :
    (quietly (onFiles (readFilp f)) >>=
      fun filp => quietly (nonnull filp.filpIno) >>= loop filp).log w =
      (loop (w.files.fdTable f) ino).log w := by
  have filp : (onFiles (readFilp f)).erase w = some (w.files.fdTable f, w) := rfl
  rw [quietly_bind_log filp, inode]
  exact quietly_bind_log rfl

theorem readBounded_of_came {result : Int × World}
    (came : (rootFsRead who f data count (w.files.fdTable f).filpPos).erase w = some result) :
    ReadBounded w who f data count := by
  intro k member
  rw [← rootFsReadIndexes_erase] at came
  obtain ⟨filp, w₁, later, same⟩ := mem_quietly_bind member
  rw [rootFsReadIndexes, same] at came
  obtain ⟨ino, w₂, later, same⟩ := mem_quietly_bind later
  rw [same] at came
  exact readIndexes_came came later

theorem InZones.index_lt (inZones : InZones pos count)
    (range : pos.toNat / blockSize ≤ k ∧ k < pos.toNat / blockSize + blocksTo pos pos count) :
    k < nrTzones := by
  unfold blocksTo at range
  exact inZones.lt range.1 (by omega)

/-- Where the sum wraps around without leaving the block, it is in the array if the position is. -/
theorem outside_of_not_inZones (outside : ¬ InZones pos count)
    (inside : pos.toNat / blockSize < nrTzones) :
    nrTzones * blockSize ≤ count.toNat + pos.toNat ∧ count.toNat + pos.toNat < 2 ^ 32 := by
  unfold InZones nrTzones blockSize at *
  rw [toNat_add] at outside
  have bound := count.isLt
  omega

theorem far_of_not_inZones (outside : ¬ InZones pos count) :
    0 < blocksTo pos pos count ∧ nrTzones < pos.toNat / blockSize + blocksTo pos pos count := by
  unfold InZones at outside
  unfold blocksTo
  omega

theorem writeBounded_of_inZones (inode : (w.files.fdTable f).filpIno = some ino)
    (inZones : InZones (w.files.fdTable f).filpPos count) : WriteBounded w who f ino data count := by
  refine ⟨fun k member => ?_, fun past written w' came => ?_⟩
  · rw [rootFsWriteIndexes, fileIndexes_log inode] at member
    exact inZones.index_lt (mem_writeIndexes member)
  · -- past the end, the sum has wrapped around, and no more than a block is written
    obtain ⟨n, -, fits, bare, back⟩ := rootFsWrite_came inode came
    refine ⟨?_, sameFields_of_bare bare⟩
    have least := (w.files.fdTable f).filpPos.isLt
    have block : n ≤ blockSize ∧ n < count.toNat := by
      unfold InZones blocksTo nrTzones blockSize at *
      rw [toNat_add] at *
      omega
    obtain rfl | rfl := back
    · exact Int.lt_of_lt_of_le (by decide) (Int.natCast_nonneg _)
    · unfold blockSize at block
      rw [toInt_ofNat', Int.bmod_eq_of_le (by omega) (by omega)]
      omega

theorem inZones_of_zones {array : Nat → Word} (inode : (w.files.fdTable f).filpIno = some ino)
    (dev : (w.files.fdTable f).filpDev = some .rootfs)
    (charted : Charted w.files.vol ino array nrTzones)
    (zones : ∀ k ∈ (rootFsWriteIndexes who f data count (w.files.fdTable f).filpPos).log w,
      k < nrTzones) :
    InZones (w.files.fdTable f).filpPos count := by
  by_contra outside
  rw [rootFsWriteIndexes, fileIndexes_log inode] at zones
  obtain ⟨some, far⟩ := far_of_not_inZones outside
  by_cases inside : (w.files.fdTable f).filpPos.toNat / blockSize < nrTzones
  · obtain ⟨enough, -⟩ := outside_of_not_inZones outside inside
    have start := Nat.div_add_mod' (w.files.fdTable f).filpPos.toNat blockSize
    refine absurd (zones nrTzones (writeIndexes_reach charted dev ?_ (Nat.le_of_lt inside) far ?_))
      (Nat.lt_irrefl _)
    · rw [offset_small]
      exact Nat.mod_lt _ (by decide)
    · rw [offset_small]
      omega
  · obtain ⟨left, more⟩ := Nat.exists_eq_succ_of_ne_zero (Nat.ne_of_gt some)
    rw [more] at zones
    exact inside (zones _ writeIndexes_first)

theorem readBounded_iff (src : Nat → Word) (file : OpenFile (fun _ => True) w f ino)
    (feeds : Feeds (w.isDirect f) (fun _ => True) src w.files.vol.cache) :
    ReadBounded w who f data count ↔ InZones (w.files.fdTable f).filpPos count ∨
      ReadStops (w.files.vol.inodeTable ino).iZone (w.files.vol.inodeTable ino).iSize.toNat
        ((w.files.fdTable f).filpPos.toNat % blockSize)
        ((w.files.fdTable f).filpPos.toNat / blockSize) := by
  have small : (BitVec.ofNat 32 ((w.files.fdTable f).filpPos.toNat % blockSize)).toNat < blockSize := by
    rw [offset_small]
    exact Nat.mod_lt _ (by decide)
  rw [ReadBounded, rootFsReadIndexes, fileIndexes_log file.inode]
  constructor
  · intro bounded
    by_contra neither
    obtain ⟨outside, goes⟩ := not_or.mp neither
    obtain ⟨some, far⟩ := far_of_not_inZones outside
    by_cases inside : (w.files.fdTable f).filpPos.toNat / blockSize < nrTzones
    · obtain ⟨enough, fits⟩ := outside_of_not_inZones outside inside
      have start := Nat.div_add_mod' (w.files.fdTable f).filpPos.toNat blockSize
      have part := Nat.mod_le (w.files.fdTable f).filpPos.toNat blockSize
      refine absurd (bounded nrTzones
        (readIndexes_reach file feeds small (Nat.le_of_lt inside) far ?_ ?_ ?_))
        (Nat.lt_irrefl _)
      · rw [offset_small]
        omega
      · rw [offset_small]
        omega
      · rwa [offset_small]
    · obtain ⟨left, more⟩ := Nat.exists_eq_succ_of_ne_zero (Nat.ne_of_gt some)
      rw [more] at bounded
      exact inside (bounded _ readIndexes_first)
  · rintro (inZones | stops) k member
    · exact inZones.index_lt (mem_readIndexes member)
    · exact readIndexes_stop file feeds small (by rwa [offset_small]) member

end Calls

theorem newFile_open : OpenFile (fun _ => True) newFile fileFilp fileSlot :=
  ⟨rfl, rfl, fun _ inside => newFile_new.backed.placed inside⟩

end Winix.Fs
