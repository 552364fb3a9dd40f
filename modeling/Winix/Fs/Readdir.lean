/-
**Listing a directory.**

`sys_getdents` keeps its place in a descriptor in two fields: the zone, which moves on when a block is
done and entries are still asked for, and the slot, which moves when an entry is returned. `remaining`
says which entries a place stands for; a call takes the first of them and leaves the others
(`sysGetdents_run`), whatever the place is.

* **`getdents_lists_all`**: calls with any positive counts list the directory, and so does `readdir`.
-/

import Mathlib.Tactic.Ring
import Winix.Fs.Counts
import Winix.Fs.Words
import Winix.Kernel.Boot

namespace Winix.Fs

open Kernel Lib Function List BitVec

/-! ### The entries that are left -/

section

variable (array : Nat → Word)

/-- The words of `struct dirent` in a slot of a block. -/
def direntAt (b slot : Nat) : List Word :=
  slice array (b * blockSize + direntSize * slot) direntLen

/-- `d_ino > 0`. -/
def liveAt (b slot : Nat) : Bool :=
  0 < (array (b * blockSize + direntSize * slot)).toInt

/-- The live entries of a block, from a slot on. -/
def liveFrom (first b : Nat) : List (List Word) :=
  (((List.range wholeSlots).drop first).filter (liveAt array b)).map (direntAt array b)

/-- The live entries of a directory. -/
def liveEntries (blocks : List Nat) : List (List Word) :=
  blocks.flatMap (liveFrom array 0)

/-- The live entries from a place on. -/
def remaining (blocks : List Nat) (pos : DirPos) : List (List Word) :=
  match blocks.drop pos.zoneNr with
  | [] => []
  | b :: rest => liveFrom array pos.dirstreamNr b ++ liveEntries array rest

end

section Remaining

variable {array : Nat → Word} {blocks : List Nat} {b slot : Nat}
variable {pos : DirPos}

theorem drop_range {n slot : Nat} (inside : slot < n) :
    (List.range n).drop slot = slot :: (List.range n).drop (slot + 1) := by
  rw [drop_eq_getElem_cons (by simpa using inside), getElem_range]

theorem liveFrom_live (inside : slot < wholeSlots) (live : liveAt array b slot = true) :
    liveFrom array slot b = direntAt array b slot :: liveFrom array (slot + 1) b := by
  rw [liveFrom, drop_range inside, filter_cons_of_pos live, map_cons]
  rfl

theorem liveFrom_free (free : liveAt array b slot = false) :
    liveFrom array slot b = liveFrom array (slot + 1) b := by
  by_cases inside : slot < wholeSlots
  · rw [liveFrom, drop_range inside, filter_cons_of_neg (by simp [free])]
    rfl
  · rw [liveFrom, liveFrom, drop_eq_nil_of_le (by simpa using inside),
      drop_eq_nil_of_le (by simp; omega)]

theorem liveFrom_end (behind : wholeSlots ≤ slot) : liveFrom array slot b = [] := by
  rw [liveFrom, drop_eq_nil_of_le (by simpa using behind)]
  rfl

theorem remaining_cons {rest : List Nat} (here : blocks.drop pos.zoneNr = b :: rest) :
    remaining array blocks pos = liveFrom array pos.dirstreamNr b ++ liveEntries array rest := by
  rw [remaining, here]

theorem remaining_block {z : Nat} :
    remaining array blocks ⟨z, 0⟩ = liveEntries array (blocks.drop z) := by
  unfold remaining
  cases here : blocks.drop z with
  | nil => rfl
  | cons b rest => rfl

theorem remaining_end (behind : blocks.length ≤ pos.zoneNr) : remaining array blocks pos = [] := by
  rw [remaining, drop_eq_nil_of_le behind]

theorem length_liveFrom_le (array : Nat → Word) (first b : Nat) :
    (liveFrom array first b).length ≤ wholeSlots := by
  rw [liveFrom, length_map]
  refine (length_filter_le _ _).trans ?_
  rw [length_drop, length_range]
  omega

theorem length_liveEntries_le (array : Nat → Word) (blocks : List Nat) :
    (liveEntries array blocks).length ≤ wholeSlots * blocks.length := by
  induction blocks with
  | nil => exact Nat.le_refl _
  | cons b rest ih =>
    have first := length_liveFrom_le array 0 b
    rw [liveEntries, flatMap_cons, length_append, length_cons]
    rw [liveEntries] at ih
    unfold wholeSlots at *
    omega

theorem length_remaining_le (array : Nat → Word) (blocks : List Nat) (pos : DirPos) :
    (remaining array blocks pos).length ≤ wholeSlots * blocks.length := by
  unfold remaining
  cases here : blocks.drop pos.zoneNr with
  | nil => exact Nat.zero_le _
  | cons b rest =>
    have shorter := congrArg List.length here
    have first := length_liveFrom_le array pos.dirstreamNr b
    have others := length_liveEntries_le array rest
    rw [length_drop, length_cons] at shorter
    rw [length_append]
    unfold wholeSlots at *
    omega

theorem length_of_mem_liveFrom {first : Nat} {entry : List Word}
    (member : entry ∈ liveFrom array first b) :
    entry.length = direntLen := by
  obtain ⟨slot, -, rfl⟩ := mem_map.mp member
  exact length_slice _ _ _

theorem length_of_mem_remaining {entry : List Word} (member : entry ∈ remaining array blocks pos) :
    entry.length = direntLen := by
  unfold remaining at member
  cases here : blocks.drop pos.zoneNr with
  | nil =>
    rw [here] at member
    exact absurd member not_mem_nil
  | cons b rest =>
    rw [here] at member
    rcases mem_append.mp member with first | others
    · exact length_of_mem_liveFrom first
    · obtain ⟨b, -, here⟩ := mem_flatMap.mp others
      exact length_of_mem_liveFrom here

end Remaining

/-! ### One call -/

/-- The world with another cache, memory and places in the directories. -/
def World.relist (w : World) (cache : Cache) (memory : Memory) (dirPos : FilpNr → DirPos) : World :=
  { w with
    files := { w.files with vol := { w.files.vol with cache } }
    kernel := { w.kernel with memory }
    dirPos }

/-- The descriptor is open on a directory with these blocks, in its first zones. What would be the last
entry of a block, which overhangs it, is not live. -/
structure OpenDir (w : World) (who : ProcNr) (fd : Int) (f : FilpNr) (dirp : InodeNr)
    (array : Nat → Word)
    (blocks : List Nat) : Prop where
  opened : ∃ slot, fdOpened (w.files.procs who) fd = some (slot, f)
  inode : (w.files.fdTable f).filpIno = some dirp
  isDir : sIsdir (w.files.vol.inodeTable dirp).iMode = true
  device : (w.files.vol.inodeTable dirp).iDev = some .rootfs
  few : blocks.length ≤ nrTzones
  zones : ∀ z < nrTzones, ((w.files.vol.inodeTable dirp).iZone z).toNat = blocks.getD z 0
  inside : ∀ b ∈ blocks, Inside w.files.vol.cache b
  idle : Idle (settled (· ∈ blocks) array) w.files.vol.cache
  last : ∀ b ∈ blocks, liveAt array b wholeSlots = false

section Calls

variable {w : World} {who : ProcNr} {fd : Int} {f : FilpNr} {dirp : InodeNr} {array : Nat → Word}
  {blocks : List Nat} {b : Nat} {buffer : BufNr}
variable {cache : Cache} {l : Listing} {entries : List (List Word)} {slot : Nat} {w' : World}
variable {z : Nat} {rest : List Nat} {dirPos : FilpNr → DirPos}

/-- What the loop over a block has done: it has written these entries, and the slot of the place is
behind them. -/
structure Wrote (w : World) (f : FilpNr) (l : Listing) (entries : List (List Word)) (l' : Listing)
    (w' : World) : Prop where
  world : ∃ dirPos, w' =
    w.relist w.files.vol.cache (putList w.kernel.memory l.dst entries.flatten) dirPos
  zoneNr : (w'.dirPos f).zoneNr = (w.dirPos f).zoneNr
  dst : l'.dst = l.dst + BitVec.ofNat 32 (direntLen * entries.length)
  count : l'.count.toNat = l.count.toNat - entries.length
  ret : l'.ret = l.ret + (direntLen * entries.length : Nat)

theorem Wrote.nothing : Wrote w f l [] l w :=
  ⟨⟨w.dirPos, by rw [flatten_nil, putList_nil]; rfl⟩, rfl, (add_zero _).symm, rfl,
    (Int.add_zero _).symm⟩

theorem toNat_ne_zero {count : Word} (asked : count ≠ 0#32) : count.toNat ≠ 0 :=
  fun zero => asked (eq_of_toNat_eq zero)

theorem Wrote.cons {l l' : Listing} {entry : List Word} (asked : l.count ≠ 0#32)
    (len : entry.length = direntLen) (small : (entry :: entries).flatten.length < 2 ^ 32)
    (wrote : Wrote (w.relist w.files.vol.cache (putList w.kernel.memory l.dst entry)
        (update w.dirPos f ⟨(w.dirPos f).zoneNr, slot + 1⟩)) f
      ⟨l.dst + 32#32, l.count - 1, slot + 1, l.ret + 32⟩ entries l' w') :
    Wrote w f l (entry :: entries) l' w' := by
  obtain ⟨⟨dirPos, world⟩, zoneNr, dst, count, ret⟩ := wrote
  rw [flatten_cons, length_append] at small
  refine ⟨⟨dirPos, ?_⟩, ?_, ?_, ?_, ?_⟩
  · rw [world, flatten_cons, ← putList_append small, len]
    rfl
  · rw [zoneNr]
    show (update w.dirPos f _ f).zoneNr = _
    rw [update_self]
  · rw [dst, length_cons, add_assoc]
    congr 1
    rw [Nat.mul_succ, Nat.add_comm, ofNat_add]
    rfl
  · have positive : 1 ≤ l.count.toNat := Nat.one_le_iff_ne_zero.mpr (toNat_ne_zero asked)
    rw [count, length_cons, toNat_sub_of_le (by rw [le_def]; exact positive)]
    show l.count.toNat - 1 - _ = _
    omega
  · rw [ret, length_cons]
    simp only [direntLen]
    push_cast
    ring

theorem dIno_live {v : Volume}
    (shows : ∀ k < blockSize, (v.cache.bufTable buffer).block k = array (b * blockSize + k))
    (inside : slot < dirSlots) : 0 < dIno v buffer slot ↔ liveAt array b slot = true := by
  have within : direntSize * slot < blockSize := by
    unfold direntSize dirSlots blockSize at *
    omega
  rw [dIno, bufWord_block within, shows _ within, liveAt, decide_eq_true_iff]

theorem direntAt_eq {v : Volume}
    (shows : ∀ k < blockSize, (v.cache.bufTable buffer).block k = array (b * blockSize + k))
    (inside : slot < wholeSlots) :
    (List.range direntLen).map (fun i => bufWord v buffer (direntSize * slot + i)) =
      direntAt array b slot := by
  unfold direntAt slice
  refine map_congr_left fun i member => ?_
  have within : direntSize * slot + i < blockSize := by
    have := mem_range.mp member
    unfold direntSize wholeSlots direntLen blockSize at *
    omega
  rw [bufWord_block within, shows _ within, Nat.add_assoc]

theorem length_flatten (each : ∀ entry ∈ entries, entry.length = direntLen) :
    entries.flatten.length = direntLen * entries.length := by
  induction entries with
  | nil => rfl
  | cons entry entries ih =>
    rw [flatten_cons, length_append, each entry mem_cons_self,
      ih fun entry member => each entry (mem_cons_of_mem _ member), length_cons, Nat.mul_succ,
      Nat.add_comm]

theorem flatten_take_lt (each : ∀ entry ∈ entries, entry.length = direntLen)
    (few : entries.length ≤ wholeSlots * nrTzones) (n : Nat) :
    (entries.take n).flatten.length < 2 ^ 32 := by
  rw [length_flatten fun entry member => each entry (mem_of_mem_take member), length_take]
  unfold direntLen wholeSlots nrTzones at *
  omega

theorem flatten_remaining_lt (array : Nat → Word) (few : blocks.length ≤ nrTzones) (pos : DirPos)
    (n : Nat) :
    ((remaining array blocks pos).take n).flatten.length < 2 ^ 32 :=
  flatten_take_lt (fun _ => length_of_mem_remaining)
    ((length_remaining_le array blocks pos).trans (Nat.mul_le_mul_left _ few)) n

/-- **The loop over a block** writes the live entries from a slot on, as far as they are asked for. -/
theorem listEntries_run (who : ProcNr) (f : FilpNr) (last : liveAt array b wholeSlots = false)
    (left slot : Nat)
    (reach : dirSlots ≤ slot + left) (l : Listing) {w : World}
    (shows : ∀ k < blockSize, (w.files.vol.cache.bufTable buffer).block k = array (b * blockSize + k)) :
    ∃ l' w', (listEntries who f buffer ((List.range dirSlots).drop slot) l).erase w = some (l', w') ∧
      Wrote w f l ((liveFrom array slot b).take l.count.toNat) l' w' ∧
      (l.count = 0#32 → w'.dirPos f = w.dirPos f) ∧
      (l.count ≠ 0#32 → l.count.toNat ≤ (liveFrom array slot b).length →
        liveFrom array (w'.dirPos f).dirstreamNr b = (liveFrom array slot b).drop l.count.toNat) := by
  induction left generalizing slot l w with
  | zero =>
    have behind : wholeSlots ≤ slot := by
      unfold wholeSlots dirSlots at *
      omega
    rw [drop_eq_nil_of_le (by simpa using reach), liveFrom_end behind, take_nil]
    refine ⟨l, w, rfl, Wrote.nothing, fun _ => rfl, fun asked none => ?_⟩
    exact absurd (Nat.le_zero.mp none) (toNat_ne_zero asked)
  | succ left ih =>
    by_cases behind : dirSlots ≤ slot
    · exact ih slot (by omega) l shows
    have inside : slot < dirSlots := by omega
    rw [drop_range inside]
    by_cases asked : l.count = 0#32
    · refine ⟨l, w, ?_, ?_, fun _ => rfl, fun some => absurd asked some⟩
      · rw [listEntries, if_pos asked]
        rfl
      · rw [asked]
        exact Wrote.nothing
    · rw [listEntries, if_neg asked, readWorld_erase]
      have reach' : dirSlots ≤ slot + 1 + left := by omega
      cases live : liveAt array b slot with
      | false =>
        -- the slot is passed over
        rw [if_neg (by rw [dIno_live shows inside, live]; exact Bool.false_ne_true), liveFrom_free live]
        obtain ⟨l', w', ran, wrote, stays, left⟩ :=
          ih (slot + 1) reach' { l with dirstreamNr := slot + 1 } shows
        exact ⟨l', w', ran, ⟨wrote.world, wrote.zoneNr, wrote.dst, wrote.count, wrote.ret⟩, stays, left⟩
      | true =>
        have whole : slot < wholeSlots := by
          by_contra overhang
          have here : slot = wholeSlots := by
            unfold wholeSlots dirSlots at *
            omega
          rw [here, last] at live
          exact Bool.false_ne_true live
        rw [if_pos ((dIno_live shows inside).mpr live), Logged.bind_run writeUser_erase,
          putWords_eq_putList, direntAt_eq shows whole, Logged.bind_run setDirPos_erase,
          liveFrom_live whole live]
        obtain ⟨n, more⟩ := Nat.exists_eq_succ_of_ne_zero (toNat_ne_zero asked)
        have fewer : (l.count - 1).toNat = n := by
          rw [toNat_sub_of_le (by rw [le_def, more]; exact Nat.succ_le_succ n.zero_le), more]
          rfl
        obtain ⟨l', w', ran, wrote, stays, left⟩ := ih (slot + 1) reach'
          ⟨l.dst + 32#32, l.count - 1, slot + 1, l.ret + 32⟩
          (w := w.relist w.files.vol.cache (putList w.kernel.memory l.dst (direntAt array b slot))
            (update w.dirPos f ⟨(w.dirPos f).zoneNr, slot + 1⟩)) shows
        refine ⟨l', w', ran, ?_, fun none => absurd none asked, fun _ enough => ?_⟩
        · rw [more, take_succ_cons]
          rw [fewer] at wrote
          refine Wrote.cons asked (length_slice _ _ _) ?_ wrote
          have small := flatten_take_lt (fun _ => length_of_mem_liveFrom)
            ((length_liveFrom_le array slot b).trans (by decide)) (n + 1)
          rwa [liveFrom_live whole live, take_succ_cons] at small
        · rw [more, drop_succ_cons]
          rw [more, length_cons] at enough
          by_cases done : l.count - 1 = 0#32
          · have last : n = 0 := by
              rw [← fewer, done]
              rfl
            rw [stays done, last, drop_zero]
            show liveFrom array (update w.dirPos f _ f).dirstreamNr b = _
            rw [update_self]
          · rw [← fewer]
            exact left done (by rw [fewer]; omega)

/-- What a call has done: of the entries that were left it has written the first ones to the memory of
the process, and the others are left. -/
structure Advanced (w : World) (who : ProcNr) (fd : Int) (f : FilpNr) (dirp : InodeNr)
    (array : Nat → Word) (blocks : List Nat) (dst : Word) (entries : List (List Word)) (n : Nat)
    (w' : World) : Prop where
  world : ∃ cache dirPos,
    w' = w.relist cache (putList w.kernel.memory dst (entries.take n).flatten) dirPos
  dir : OpenDir w' who fd f dirp array blocks
  left : remaining array blocks (w'.dirPos f) = entries.drop n

theorem Advanced.within {l l' : Listing} (pos : DirPos) (here : blocks.drop pos.zoneNr = b :: rest)
    (enough : l.count.toNat ≤ (liveFrom array pos.dirstreamNr b).length)
    (wrote : Wrote w f l ((liveFrom array pos.dirstreamNr b).take l.count.toNat) l' w')
    (place : (w.dirPos f).zoneNr = pos.zoneNr) (next : liveFrom array (w'.dirPos f).dirstreamNr b =
      (liveFrom array pos.dirstreamNr b).drop l.count.toNat)
    (dir : OpenDir (w'.relist cache w'.kernel.memory w'.dirPos) who fd f dirp array blocks) :
    l'.ret = l.ret + (direntLen * ((remaining array blocks pos).take l.count.toNat).length : Nat) ∧
    Advanced w who fd f dirp array blocks l.dst (remaining array blocks pos) l.count.toNat
      (w'.relist cache w'.kernel.memory w'.dirPos) := by
  obtain ⟨⟨dirPos, world⟩, zoneNr, -, -, ret⟩ := wrote
  have first : (remaining array blocks pos).take l.count.toNat =
      (liveFrom array pos.dirstreamNr b).take l.count.toNat := by
    rw [remaining_cons here, take_append_of_le_length enough]
  refine ⟨by rw [first, ret], ⟨cache, dirPos, ?_⟩, dir, ?_⟩
  · rw [first, world]
    rfl
  · show remaining array blocks (w'.dirPos f) = _
    rw [remaining_cons (by rw [zoneNr, place]; exact here), next, remaining_cons here,
      drop_append_of_le_length enough]

/-- `getdents_zone_nr++`. -/
def nextBlock (dirPos : FilpNr → DirPos) (f : FilpNr) : FilpNr → DirPos :=
  update dirPos f { dirPos f with zoneNr := (dirPos f).zoneNr + 1 }

theorem Advanced.append {first others : List (List Word)}
    (len : ∀ entry ∈ first, entry.length = direntLen) {n : Nat} (fewer : first.length ≤ n)
    (small : (first ++ others.take (n - first.length)).flatten.length < 2 ^ 32)
    (advanced : Advanced (w.relist cache (putList w.kernel.memory l.dst first.flatten) dirPos) who fd f
      dirp array blocks (l.dst + BitVec.ofNat 32 (direntLen * first.length)) others
        (n - first.length) w') :
    Advanced w who fd f dirp array blocks l.dst (first ++ others) n w' := by
  obtain ⟨⟨cache', dirPos', world⟩, dir, left⟩ := advanced
  rw [flatten_append, length_append] at small
  refine ⟨⟨cache', dirPos', ?_⟩, dir, ?_⟩
  · rw [world, take_append, take_of_length_le fewer, flatten_append, ← putList_append small,
      length_flatten len]
    rfl
  · rw [left, drop_append, drop_eq_nil_of_le fewer, nil_append]

/-- The zones from a place on are listed. -/
def Lists (w : World) (who : ProcNr) (fd : Int) (f : FilpNr) (dirp : InodeNr) (array : Nat → Word)
    (blocks : List Nat) (z : Nat) (l : Listing) : Prop :=
  ∃ w', (listZones who f dirp ((List.range nrTzones).drop z) l).erase w =
      some (l.ret + (direntLen *
        ((remaining array blocks ⟨z, l.dirstreamNr⟩).take l.count.toNat).length : Nat), w') ∧
    Advanced w who fd f dirp array blocks l.dst (remaining array blocks ⟨z, l.dirstreamNr⟩)
      l.count.toNat w'

section

variable (dir : OpenDir w who fd f dirp array blocks)
include dir

theorem OpenDir.relist (memory : Memory)
    (dirPos : FilpNr → DirPos) (idle : Idle (settled (· ∈ blocks) array) cache)
    (size : cache.rootfsDiskSize = w.files.vol.cache.rootfsDiskSize) :
    OpenDir (w.relist cache memory dirPos) who fd f dirp array blocks where
  opened := dir.opened
  inode := dir.inode
  isDir := dir.isDir
  device := dir.device
  few := dir.few
  zones := dir.zones
  inside := fun b member => inside_of_size size (dir.inside b member)
  idle := idle
  last := dir.last

theorem OpenDir.zone (here : blocks.drop z = b :: rest) :
    ((w.files.vol.inodeTable dirp).iZone z).toNat = b ∧ b ∈ blocks := by
  have inside : z < blocks.length :=
    not_le.mp fun behind => cons_ne_nil _ _ (here.symm.trans (drop_eq_nil_of_le behind))
  have block : blocks[z] = b := by
    rw [drop_eq_getElem_cons inside] at here
    exact (List.cons.inj here).1
  have few := dir.few
  rw [dir.zones z (by omega), getD_eq_getElem _ _ inside, block]
  exact ⟨rfl, block ▸ getElem_mem inside⟩

theorem OpenDir.zone_used (here : blocks.drop z = b :: rest) :
    (w.files.vol.inodeTable dirp).iZone z ≠ 0#32 := by
  obtain ⟨zone, member⟩ := dir.zone here
  have positive := (dir.inside b member).1
  intro zero
  rw [← zone, zero] at positive
  exact absurd positive (by decide)

theorem OpenDir.zone_zero (inside : z < nrTzones) (behind : blocks.length ≤ z) :
    (w.files.vol.inodeTable dirp).iZone z = 0#32 := by
  refine eq_of_toNat_eq ?_
  rw [dir.zones z inside, getD_eq_default _ _ behind]
  rfl

theorem OpenDir.getZone (here : blocks.drop z = b :: rest) :
    ∃ buffer cache,
      (onDisks (derefBlock ((w.files.vol.inodeTable dirp).iZone z)
        (w.files.vol.inodeTable dirp).iDev)).erase w =
          some (buffer, w.relist cache w.kernel.memory w.dirPos) ∧
      Held (settled (· ∈ blocks) array) cache buffer b ∧
      (∀ k < blockSize, (cache.bufTable buffer).block k = array (b * blockSize + k)) ∧
      cache.rootfsDiskSize = w.files.vol.cache.rootfsDiskSize := by
  obtain ⟨zone, member⟩ := dir.zone here
  have inside := dir.inside b member
  obtain ⟨buffer, cache, got, held, took⟩ := derefBlock_idle dir.idle (zone.symm ▸ inside)
  rw [zone] at held
  exact ⟨buffer, cache, onDisks_run (by rw [dir.device]; exact got), held,
    held.shows inside.1 member, took.size⟩

theorem OpenDir.putZone {memory : Memory} (world : w' = w.relist cache memory dirPos)
    (held : Held (settled (· ∈ blocks) array) cache buffer b)
    (size : cache.rootfsDiskSize = w.files.vol.cache.rootfsDiskSize) :
    ∃ cache', (onDisks (putBlock buffer)).erase w' =
        some (⟨⟩, w'.relist cache' w'.kernel.memory w'.dirPos) ∧
      OpenDir (w'.relist cache' w'.kernel.memory w'.dirPos) who fd f dirp array blocks := by
  subst world
  obtain ⟨cache', put, idle, same⟩ := putBlock_held (v := (w.relist cache memory dirPos).files.vol) held
  exact ⟨cache', onDisks_run put, dir.relist memory dirPos idle (same.size.trans size)⟩

theorem listZones_done {zones : List Nat} (inside : ∀ z ∈ zones, z < nrTzones)
    (done : l.count = 0#32) :
    ∃ cache, (listZones who f dirp zones l).erase w =
        some (l.ret, w.relist cache w.kernel.memory w.dirPos) ∧
      OpenDir (w.relist cache w.kernel.memory w.dirPos) who fd f dirp array blocks := by
  induction zones generalizing w with
  | nil => exact ⟨w.files.vol.cache, rfl, dir⟩
  | cons z zones ih =>
    have others : ∀ z ∈ zones, z < nrTzones := fun z member => inside z (mem_cons_of_mem _ member)
    rw [listZones, Logged.bind_run (onDisks_run readIno_run)]
    cases here : blocks.drop z with
    | nil =>
      rw [if_pos (dir.zone_zero (inside z mem_cons_self) (drop_eq_nil_iff.mp here))]
      exact ih dir others
    | cons b rest =>
      obtain ⟨buffer, cache, got, held, -, size⟩ := dir.getZone here
      rw [if_neg (dir.zone_used here), Logged.bind_run got]
      have nothing (slots : List Nat) : listEntries who f buffer slots l = pure l := by
        cases slots with
        | nil => rfl
        | cons slot slots => rw [listEntries, if_pos done]
      rw [nothing, pure_bind, endOfBlock, if_neg (not_not.mpr done), pure_bind]
      obtain ⟨cache', put, dir'⟩ := dir.putZone rfl held size
      rw [Logged.bind_run put]
      exact ih dir' others

theorem listZones_behind (l : Listing) (left : Nat)
    (reach : nrTzones ≤ z + left) (behind : blocks.length ≤ z) :
    (listZones who f dirp ((List.range nrTzones).drop z) l).erase w = some (l.ret, w) := by
  induction left generalizing z with
  | zero =>
    rw [drop_eq_nil_of_le (by simpa using reach)]
    rfl
  | succ left ih =>
    by_cases inside : z < nrTzones
    · rw [drop_range inside, listZones, Logged.bind_run (onDisks_run readIno_run),
        if_pos (dir.zone_zero inside behind)]
      exact ih (by omega) (by omega)
    · exact ih (by omega) behind

theorem listZones_end (l : Listing)
    (place : (w.dirPos f).zoneNr = z) (behind : blocks.length ≤ z) :
    Lists w who fd f dirp array blocks z l := by
  rw [Lists, remaining_end behind, take_nil]
  refine ⟨w, ?_, ⟨⟨w.files.vol.cache, w.dirPos, ?_⟩, dir, ?_⟩⟩
  · rw [listZones_behind dir l nrTzones (Nat.le_add_left _ _) behind]
    simp
  · rw [take_nil, flatten_nil, putList_nil]
    rfl
  · rw [remaining_end (by rw [place]; exact behind), drop_nil]

/-- **The loop over the zones.** -/
theorem listZones_run (left : Nat) (reach : blocks.length ≤ z + left) (l : Listing)
    (asked : l.count ≠ 0#32)
    (place : (w.dirPos f).zoneNr = z) : Lists w who fd f dirp array blocks z l := by
  induction left generalizing z l w with
  | zero => exact listZones_end dir l place reach
  | succ left ih =>
    cases here : blocks.drop z with
    | nil => exact listZones_end dir l place (drop_eq_nil_iff.mp here)
    | cons b rest =>
      obtain ⟨buffer, cache, got, held, shows, size⟩ := dir.getZone here
      have inside : z < nrTzones := lt_of_lt_of_le (not_le.mp fun behind =>
        cons_ne_nil _ _ (here.symm.trans (drop_eq_nil_of_le behind))) dir.few
      rw [Lists, drop_range inside, listZones, Logged.bind_run (onDisks_run readIno_run),
        if_neg (dir.zone_used here), Logged.bind_run got]
      obtain ⟨l', w', ran, wrote, -, next⟩ := listEntries_run who f
        (dir.last b (dir.zone here).2) dirSlots l.dirstreamNr (Nat.le_add_left _ _) l
        (w := w.relist cache w.kernel.memory w.dirPos) shows
      obtain ⟨dirPos, world⟩ := wrote.world
      rw [Logged.bind_run ran]
      by_cases enough : l.count.toNat ≤ (liveFrom array l.dirstreamNr b).length
      · -- the block has all that is asked for
        have done : l'.count = 0#32 := by
          refine eq_of_toNat_eq ?_
          rw [wrote.count, length_take, Nat.min_eq_left enough, Nat.sub_self]
          rfl
        obtain ⟨cache', put, dir'⟩ := dir.putZone world held size
        obtain ⟨cache'', rest, dir''⟩ := listZones_done dir'
          (fun z member => mem_range.mp (mem_of_mem_drop member)) done
        obtain ⟨ret, advanced⟩ := Advanced.within ⟨z, l.dirstreamNr⟩ here enough wrote place
          (next asked enough) dir''
        refine ⟨_, ?_, advanced.world, advanced.dir, advanced.left⟩
        rw [endOfBlock, if_neg (not_not.mpr done), pure_bind, Logged.bind_run put, ← ret]
        exact rest
      · -- the next block goes on
        have all : (liveFrom array l.dirstreamNr b).take l.count.toNat =
            liveFrom array l.dirstreamNr b := take_of_length_le (by omega)
        rw [all] at wrote world
        have more : l'.count ≠ 0#32 := fun zero => by
          have count := wrote.count
          rw [zero] at count
          have : (0#32).toNat = 0 := rfl
          omega
        have moved : { w' with dirPos := nextBlock w'.dirPos f } = w.relist cache
            (putList w.kernel.memory l.dst (liveFrom array l.dirstreamNr b).flatten)
            (nextBlock w'.dirPos f) := by
          rw [world]
          rfl
        obtain ⟨cache', put, dir'⟩ := dir.putZone moved held size
        have following : (nextBlock w'.dirPos f f).zoneNr = z + 1 := by
          rw [nextBlock, update_self]
          show (w'.dirPos f).zoneNr + 1 = z + 1
          rw [wrote.zoneNr]
          exact congrArg (· + 1) place
        obtain ⟨w'', ran', advanced⟩ := ih dir' (by omega) { l' with dirstreamNr := 0 } more following
        have others : remaining array blocks ⟨z + 1, 0⟩ = liveEntries array rest := by
          rw [remaining_block, ← drop_drop, here]
          rfl
        have moving : (endOfBlock f l').erase w' =
            some ({ l' with dirstreamNr := 0 }, { w' with dirPos := nextBlock w'.dirPos f }) := by
          rw [endOfBlock, if_pos more]
          rfl
        rw [Logged.bind_run moving, Logged.bind_run put]
        rw [moved, others] at advanced
        rw [others] at ran'
        rw [remaining_cons here]
        have fewer : (liveFrom array l.dirstreamNr b).length ≤ l.count.toNat := Nat.le_of_not_le enough
        refine ⟨w'', ?_, ?_⟩
        · rw [ran', take_append, take_of_length_le fewer, length_append, wrote.ret, wrote.count]
          congr 2
          push_cast
          ring
        · have small := flatten_remaining_lt array dir.few ⟨z, l.dirstreamNr⟩ l.count.toNat
          rw [remaining_cons here, take_append, take_of_length_le fewer] at small
          have count : ({ l' with dirstreamNr := 0 } : Listing).count.toNat =
              l.count.toNat - (liveFrom array l.dirstreamNr b).length := wrote.count
          have dst : ({ l' with dirstreamNr := 0 } : Listing).dst =
            l.dst + BitVec.ofNat 32 (direntLen * (liveFrom array l.dirstreamNr b).length) := wrote.dst
          rw [count, dst] at advanced
          exact advanced.append (fun entry => length_of_mem_liveFrom) fewer small

/-- **One call** returns the first entries that are left, and leaves the others. -/
theorem sysGetdents_run (dst : Word) {count : Word}
    (asked : count ≠ 0#32) :
    ∃ w', (sysGetdents who fd dst count).erase w =
        some (((direntLen * ((remaining array blocks (w.dirPos f)).take count.toNat).length : Nat) :
          Int),
          w') ∧
      Advanced w who fd f dirp array blocks dst (remaining array blocks (w.dirPos f)) count.toNat
        w' := by
  obtain ⟨slot, opened⟩ := dir.opened
  obtain ⟨w', ran, advanced⟩ := listZones_run dir blocks.length (Nat.le_add_left _ _)
    ⟨dst, count, (w.dirPos f).dirstreamNr, 0⟩ asked rfl
  refine ⟨w', ?_, advanced⟩
  have proc : (onFiles (readFsProc who)).erase w = some (w.files.procs who, w) := rfl
  have filp : (onFiles (readFilp f)).erase w = some (w.files.fdTable f, w) := rfl
  have inode : (nonnull (w.files.fdTable f).filpIno).erase w = some (dirp, w) := by
    rw [dir.inode]
    rfl
  have isDir : ¬ (!sIsdir (w.files.vol.inodeTable dirp).iMode) = true := by
    rw [dir.isDir]
    exact Bool.false_ne_true
  rw [sysGetdents, Logged.bind_run proc, opened]
  rw [Logged.bind_run filp, Logged.bind_run inode, Logged.bind_run (onDisks_run readIno_run),
    if_neg isDir,
    readWorld_erase]
  rw [Int.zero_add] at ran
  exact ran

end

end Calls

/-! ### Many calls -/

/-- The entries that lie in a row in the memory of a process. -/
def direntsAt (memory : Memory) (dst : Word) (n : Nat) : List (List Word) :=
  (List.range n).map fun j => wordsAt memory (dst + BitVec.ofNat 32 (direntLen * j)) direntLen

/-- Calls of `sys_getdents` on one descriptor, with their results and the entries that the process then
finds in its memory. -/
def getdentsRun (who : ProcNr) (fd : Int) : List (Word × Word) → AccessM (List (Int × List (List Word)))
  | [] => return []
  | (dst, count) :: calls => do
    let ret ← sysGetdents who fd dst count
    let w ← readWorld
    let rest ← getdentsRun who fd calls
    return (ret, direntsAt w.kernel.memory dst (ret.toNat / direntLen)) :: rest

/-- Every call takes as many of the entries as it asks for, while there are some. -/
def shares (entries : List (List Word)) : List Nat → List (Int × List (List Word))
  | [] => []
  | n :: counts =>
    (((direntLen * (entries.take n).length : Nat) : Int), entries.take n) :: shares (entries.drop n)
      counts

theorem take_drop_flatten {entries : List (List Word)}
    (each : ∀ entry ∈ entries, entry.length = direntLen)
    {j : Nat} (inside : j < entries.length) :
    (entries.flatten.drop (direntLen * j)).take direntLen = entries[j] := by
  induction entries generalizing j with
  | nil => exact absurd inside (Nat.not_lt_zero j)
  | cons entry entries ih =>
    have len := each entry mem_cons_self
    rw [flatten_cons]
    cases j with
    | zero => rw [Nat.mul_zero, drop_zero, ← len, take_left]; rfl
    | succ j =>
      rw [Nat.mul_succ, Nat.add_comm, ← drop_drop, ← len, drop_left, len]
      exact ih (fun entry member => each entry (mem_cons_of_mem _ member))
        (Nat.lt_of_succ_lt_succ inside)

theorem direntsAt_putList {memory : Memory} {dst : Word} {entries : List (List Word)}
    (each : ∀ entry ∈ entries, entry.length = direntLen) (small : entries.flatten.length < 2 ^ 32) :
    direntsAt (putList memory dst entries.flatten) dst entries.length = entries := by
  refine ext_getElem (by simp [direntsAt]) fun j here there => ?_
  have total := length_flatten each
  have inside : direntLen * j + direntLen ≤ entries.flatten.length := by
    rw [total, ← Nat.mul_succ]
    exact Nat.mul_le_mul_left _ there
  simp only [direntsAt, getElem_map, getElem_range]
  rw [wordsAt_putList inside small, take_drop_flatten each there]

section Runs

variable {w : World} {who : ProcNr} {fd : Int} {f : FilpNr} {dirp : InodeNr} {array : Nat → Word}
  {blocks : List Nat}

theorem Advanced.found {dst : Word} {pos : DirPos} {n : Nat} {w' : World}
    (advanced : Advanced w who fd f dirp array blocks dst (remaining array blocks pos) n w') :
    direntsAt w'.kernel.memory dst ((remaining array blocks pos).take n).length =
      (remaining array blocks pos).take n := by
  obtain ⟨⟨cache, dirPos, world⟩, dir, -⟩ := advanced
  rw [world]
  exact direntsAt_putList (fun entry member => length_of_mem_remaining (mem_of_mem_take member))
    (flatten_remaining_lt array dir.few pos n)

/-- **Any calls** share the entries that are left. -/
theorem getdentsRun_run (dir : OpenDir w who fd f dirp array blocks) {calls : List (Word × Word)}
    (asked : ∀ call ∈ calls, call.2 ≠ 0#32) :
    ∃ w', (getdentsRun who fd calls).erase w = some (shares (remaining array blocks (w.dirPos f))
      (calls.map fun call => call.2.toNat), w') := by
  induction calls generalizing w with
  | nil => exact ⟨w, rfl⟩
  | cons call calls ih =>
    obtain ⟨w', ran, advanced⟩ := sysGetdents_run dir call.1 (asked call mem_cons_self)
    obtain ⟨w'', rest⟩ := ih advanced.dir fun call member => asked call (mem_cons_of_mem _ member)
    refine ⟨w'', ?_⟩
    rw [getdentsRun, Logged.bind_run ran, readWorld_erase, Logged.bind_run rest, Int.toNat_natCast,
      Nat.mul_div_cancel_left _ (by decide), advanced.found, advanced.left]
    rfl

end Runs

/-! ### `opendir` and `readdir` -/

/-- `O_RDWR`. -/
def oRdwr : Word := 0x2#32

/-- `memset` of the slot of the descriptor, by `get_fd`. -/
def clearDirPos (who : ProcNr) (fd : Int) : AccessM PUnit := do
  let p ← onFiles (readFsProc who)
  match fdOpened p fd with
  | none => return ⟨⟩
  | some (_, f) => setDirPos f fun _ => ⟨0, 0⟩

/-- `do_open`. -/
def doOpen (who : ProcNr) (m : Message) : AccessM Int := do
  let w ← readWorld
  if !w.checks who m.m1p1 then return efault
  else do
    let fd ← onFiles (sysOpen who (pathAt w (w.paddr who m.m1p1)) m.m1i1 m.m1i2)
    clearDirPos who fd
    return fd

/-- `DIR_BUFFER_LEN`. -/
def dirBufferLen : Nat := 3

/-- `DIR`: where it is in the memory of the process only matters for the buffer. -/
structure Dir where
  fd : Int
  pos : Nat
  limit : Nat
  buffer : Word
  deriving DecidableEq

/-- The message of a call with these arguments. -/
def callMessage (i1 i2 p1 : Word) : Message := ⟨0, 0, i1, i2, 0, p1, 0, 0⟩

/-- `opendir`, with the third argument that `open` finds, and the buffer of what `malloc` returns. -/
def opendir (who : ProcNr) (pathname mode : Word) (room : Option Word) : AccessM (Option Dir) := do
  let fd ← doOpen who (callMessage oRdwr mode pathname)
  if fd < 0 then return none
  else
    match room with
    | none => return none
    | some buffer => return some ⟨fd, 0, 0, buffer⟩

/-- The part of `readdir` that calls `getdents`. -/
def refill (who : ProcNr) (d : Dir) : AccessM (Option Word × Dir) := do
  let ret ← doGetdents who
    (callMessage (BitVec.ofInt 32 d.fd) (BitVec.ofNat 32 dirBufferLen) d.buffer)
  if ret ≤ 0 then return (none, d)
  else return (some d.buffer, { d with pos := 1, limit := ret.toNat / direntLen })

/-- `readdir`: the pointer, and the `DIR`. -/
def readdir (who : ProcNr) (d : Dir) : AccessM (Option Word × Dir) :=
  if d.limit ≠ 0 ∧ d.pos < d.limit then
    return (some (d.buffer + BitVec.ofNat 32 (direntLen * d.pos)), { d with pos := d.pos + 1 })
  else if d.limit ≠ 0 ∧ d.limit < dirBufferLen then return (none, d)
  else refill who d

/-- `readdir` until `NULL`, but this many times at most: the entries, and whether `NULL` has been
returned. -/
def readdirAll (who : ProcNr) : Nat → Dir → AccessM (List (List Word) × Bool)
  | 0, _ => return ([], false)
  | fuel + 1, d => do
    let (entry, d) ← readdir who d
    match entry with
    | none => return ([], true)
    | some va => do
      let w ← readWorld
      let (rest, ended) ← readdirAll who fuel d
      return (wordsAt w.kernel.memory (w.paddr who va) direntLen :: rest, ended)

section Readdir

variable {w : World} {who : ProcNr} {f : FilpNr} {dirp : InodeNr} {array : Nat → Word}
  {blocks : List Nat} {d : Dir} {entries : List (List Word)}

/-- Between two calls of `readdir`: the entries that it has not yet returned are in the buffer or
left in the directory. -/
structure Reading (w : World) (who : ProcNr) (f : FilpNr) (dirp : InodeNr) (array : Nat → Word)
    (blocks : List Nat) (d : Dir) (entries : List (List Word)) : Prop where
  dir : OpenDir w who d.fd f dirp array blocks
  accessible : w.checks who d.buffer = true
  pos : d.pos ≤ d.limit
  limit : d.limit ≤ dirBufferLen
  entries : entries = (direntsAt w.kernel.memory (w.paddr who d.buffer) d.limit).drop d.pos ++
    remaining array blocks (w.dirPos f)
  last : d.limit ≠ 0 → d.limit < dirBufferLen → remaining array blocks (w.dirPos f) = []

theorem OpenDir.fd_toInt {fd : Int} (dir : OpenDir w who fd f dirp array blocks) :
    (BitVec.ofInt 32 fd).toInt = fd := by
  obtain ⟨slot, opened⟩ := dir.opened
  have range : 0 ≤ fd ∧ fd < openMax := by
    by_contra outside
    rw [fdOpened, fdIndex, dif_neg outside] at opened
    exact Option.some_ne_none _ opened.symm
  unfold openMax at range
  rw [toInt_ofInt]
  exact Int.bmod_eq_of_le (by omega) (by omega)

theorem length_direntsAt (memory : Memory) (dst : Word) (n : Nat) :
    (direntsAt memory dst n).length = n := by
  rw [direntsAt, length_map, length_range]

section

variable (reading : Reading w who f dirp array blocks d entries)
include reading

theorem Reading.buffered (more : d.pos < d.limit) :
    ∃ rest, entries = wordsAt w.kernel.memory
        (w.paddr who (d.buffer + BitVec.ofNat 32 (direntLen * d.pos))) direntLen :: rest ∧
      Reading w who f dirp array blocks { d with pos := d.pos + 1 } rest := by
  have inside : d.pos < (direntsAt w.kernel.memory (w.paddr who d.buffer) d.limit).length := by
    rw [length_direntsAt]
    exact more
  have place : w.paddr who (d.buffer + BitVec.ofNat 32 (direntLen * d.pos)) =
      w.paddr who d.buffer + BitVec.ofNat 32 (direntLen * d.pos) := by
    simp only [World.paddr, physicalAddr]
    bv_omega
  refine ⟨_, ?_, ⟨reading.dir, reading.accessible, more, reading.limit, rfl, reading.last⟩⟩
  rw [reading.entries, drop_eq_getElem_cons inside, List.cons_append, place]
  simp only [direntsAt, getElem_map, getElem_range]

theorem Reading.refill (used : d.limit ≤ d.pos) :
    match entries with
    | [] => ∃ w', (refill who d).erase w = some ((none, d), w')
    | entry :: rest => ∃ va d' w', (Fs.refill who d).erase w = some ((some va, d'), w') ∧
        wordsAt w'.kernel.memory (w'.paddr who va) direntLen = entry ∧
        Reading w' who f dirp array blocks d' rest := by
  have left : entries = remaining array blocks (w.dirPos f) := by
    rw [reading.entries, drop_eq_nil_of_le (by rw [length_direntsAt]; exact used), nil_append]
  obtain ⟨w', ran, advanced⟩ := sysGetdents_run reading.dir (w.paddr who d.buffer)
    (show BitVec.ofNat 32 dirBufferLen ≠ 0#32 by decide)
  rw [← left, show (BitVec.ofNat 32 dirBufferLen).toNat = dirBufferLen from rfl] at ran advanced
  have called : (doGetdents who
      (callMessage (BitVec.ofInt 32 d.fd) (BitVec.ofNat 32 dirBufferLen) d.buffer)).erase w =
      some (((direntLen * (entries.take dirBufferLen).length : Nat) : Int), w') := by
    rw [doGetdents, ifAccessible, readWorld_erase]
    show (if w.checks who d.buffer = true then sysGetdents who (BitVec.ofInt 32 d.fd).toInt
      (w.paddr who d.buffer) (BitVec.ofNat 32 dirBufferLen) else _).erase w = _
    rw [if_pos reading.accessible, reading.dir.fd_toInt, ran]
  have found : direntsAt w'.kernel.memory (w.paddr who d.buffer) (entries.take dirBufferLen).length =
      entries.take dirBufferLen := by
    rw [left] at advanced ⊢
    exact advanced.found
  obtain ⟨⟨cache, dirPos, world⟩, dir, after⟩ := advanced
  have checks : w'.checks who d.buffer = true ∧ w'.paddr who d.buffer = w.paddr who d.buffer := by
    rw [world]
    exact ⟨reading.accessible, rfl⟩
  cases entries with
  | nil => exact ⟨w', by rw [Fs.refill, Logged.bind_run called]; rfl⟩
  | cons entry rest =>
    have length : ((entry :: rest).take dirBufferLen).length = (rest.take 2).length + 1 := rfl
    have some' : ¬ ((direntLen * ((entry :: rest).take dirBufferLen).length : Nat) : Int) ≤ 0 := by
      unfold direntLen
      omega
    have limit : (((direntLen * ((entry :: rest).take dirBufferLen).length : Nat) : Int)).toNat /
        direntLen = ((entry :: rest).take dirBufferLen).length := by
      rw [Int.toNat_natCast, Nat.mul_div_cancel_left _ (by decide)]
    refine ⟨d.buffer, { d with pos := 1, limit := ((entry :: rest).take dirBufferLen).length },
      w', ?_, ?_, ?_⟩
    · rw [Fs.refill, Logged.bind_run called, if_neg some', limit]
      rfl
    · have first := congrArg List.head? found
      rw [length, direntsAt, range_succ_eq_map] at first
      rw [checks.2, ← add_zero (w.paddr who d.buffer)]
      exact Option.some.inj first
    · refine ⟨dir, checks.1, Nat.succ_le_succ (Nat.zero_le _), ?_, ?_, fun _ few => ?_⟩
      · exact length_take_le _ _
      · rw [checks.2, found, after]
        exact (take_append_drop 2 rest).symm
      · rw [after]
        refine drop_eq_nil_of_le ?_
        have shorter : ((entry :: rest).take dirBufferLen).length < dirBufferLen := few
        rw [length_take] at shorter
        omega

/-- **One call of `readdir`** returns the next entry, or `NULL` if there is none. -/
theorem Reading.readdir :
    match entries with
    | [] => ∃ w', (readdir who d).erase w = some ((none, d), w')
    | entry :: rest => ∃ va d' w', (Fs.readdir who d).erase w = some ((some va, d'), w') ∧
        wordsAt w'.kernel.memory (w'.paddr who va) direntLen = entry ∧
        Reading w' who f dirp array blocks d' rest := by
  by_cases more : d.pos < d.limit
  · obtain ⟨rest, rfl, next⟩ := reading.buffered more
    refine ⟨_, _, w, ?_, rfl, next⟩
    rw [Fs.readdir, if_pos ⟨by omega, more⟩]
    rfl
  · rw [Fs.readdir, if_neg fun both => more both.2]
    by_cases ended : d.limit ≠ 0 ∧ d.limit < dirBufferLen
    · have none : entries = [] := by
        rw [reading.entries, reading.last ended.1 ended.2, append_nil,
          drop_eq_nil_of_le (by rw [length_direntsAt]; omega)]
      rw [if_pos ended]
      subst none
      exact ⟨w, rfl⟩
    · rw [if_neg ended]
      exact reading.refill (by omega)

theorem Reading.all {fuel : Nat} (enough : entries.length < fuel) :
    ∃ w', (readdirAll who fuel d).erase w = some ((entries, true), w') := by
  induction fuel generalizing w d entries with
  | zero => exact absurd enough (Nat.not_lt_zero _)
  | succ fuel ih =>
    have step := reading.readdir
    rw [readdirAll]
    cases entries with
    | nil =>
      obtain ⟨w', ran⟩ := step
      exact ⟨w', by rw [Logged.bind_run ran]; rfl⟩
    | cons entry rest =>
      obtain ⟨va, d', w', ran, words, next⟩ := step
      obtain ⟨w'', ran'⟩ := ih next (Nat.lt_of_succ_lt_succ enough)
      refine ⟨w'', ?_⟩
      rw [Logged.bind_run ran]
      show (readWorld >>= _).erase w' = _
      rw [readWorld_erase, Logged.bind_run ran', words]
      rfl

end

theorem clearDirPos_run {fd : Int} {slot : Fd}
    (opened : fdOpened (w.files.procs who) fd = some (slot, f)) :
    (clearDirPos who fd).erase w = some (⟨⟩, { w with dirPos := update w.dirPos f ⟨0, 0⟩ }) := by
  have proc : (onFiles (readFsProc who)).erase w = some (w.files.procs who, w) := rfl
  rw [clearDirPos, Logged.bind_run proc, opened]
  rfl

/-- The place of a descriptor that `do_open` has returned. -/
theorem doOpen_fresh {m : Message} {fd : Int} {w' : World}
    (opened : (doOpen who m).erase w = some (fd, w')) (proper : 0 ≤ fd)
    (dir : OpenDir w' who fd f dirp array blocks) : w'.dirPos f = ⟨0, 0⟩ := by
  rw [doOpen, readWorld_erase] at opened
  by_cases checks : (!w.checks who m.m1p1) = true
  · rw [if_pos checks] at opened
    obtain ⟨rfl, -⟩ := Prod.ext_iff.mp (Option.some.inj opened)
    exact absurd proper (show ¬ (0 : Int) ≤ efault by decide)
  · rw [if_neg checks] at opened
    obtain ⟨fd', w₁, -, rest⟩ := Logged.bind_erase_eq_some.mp opened
    obtain ⟨⟨⟩, w₂, cleared, result⟩ := Logged.bind_erase_eq_some.mp rest
    obtain ⟨rfl, rfl⟩ := Prod.ext_iff.mp (Option.some.inj result)
    obtain ⟨slot, here⟩ := dir.opened
    cases found : fdOpened (w₁.files.procs who) fd' with
    | none =>
      have same : (clearDirPos who fd').erase w₁ = some (⟨⟩, w₁) := by
        have proc : (onFiles (readFsProc who)).erase w₁ = some (w₁.files.procs who, w₁) := rfl
        rw [clearDirPos, Logged.bind_run proc, found]
        rfl
      obtain ⟨-, rfl⟩ := Prog.run_unique same cleared
      exact absurd (found.symm.trans here) (Option.some_ne_none _).symm
    | some result =>
      obtain ⟨slot', f'⟩ := result
      obtain ⟨-, rfl⟩ := Prog.run_unique (clearDirPos_run found) cleared
      obtain ⟨-, rfl⟩ := Prog.run_unique found here
      exact update_self ..

/-- What `opendir` returns is at the first entry, and nothing is in the buffer. -/
theorem opendir_fresh {pathname mode : Word} {room : Option Word} {w' : World}
    (opened : (opendir who pathname mode room).erase w = some (some d, w'))
    (dir : OpenDir w' who d.fd f dirp array blocks) :
    d.pos = 0 ∧ d.limit = 0 ∧ w'.dirPos f = ⟨0, 0⟩ := by
  rw [opendir] at opened
  obtain ⟨fd, w₁, called, rest⟩ := Logged.bind_erase_eq_some.mp opened
  by_cases failed : fd < 0
  · rw [if_pos failed] at rest
    cases (Prod.ext_iff.mp (Option.some.inj rest)).1
  · rw [if_neg failed] at rest
    cases room with
    | none => cases (Prod.ext_iff.mp (Option.some.inj rest)).1
    | some buffer =>
      obtain ⟨same, rfl⟩ := Prod.ext_iff.mp (Option.some.inj rest)
      obtain rfl : (⟨fd, 0, 0, buffer⟩ : Dir) = d := Option.some.inj same
      exact ⟨rfl, rfl, doOpen_fresh called (by omega) dir⟩

/-- **Listing a directory is complete**: calls of `getdents` with any positive counts share the live
entries, and `readdir` returns one after the other until `NULL`. -/
theorem getdents_lists_all (who : ProcNr) (f : FilpNr) (dirp : InodeNr) (array : Nat → Word)
    (blocks : List Nat) :
    (∀ w fd (calls : List (Word × Word)), OpenDir w who fd f dirp array blocks → w.dirPos f = ⟨0, 0⟩ →
      (∀ call ∈ calls, call.2 ≠ 0#32) →
      ∃ w', (getdentsRun who fd calls).erase w =
        some (shares (liveEntries array blocks) (calls.map fun call => call.2.toNat), w')) ∧
    (∀ w pathname mode room d w' fuel, (opendir who pathname mode room).erase w = some (some d, w') →
      OpenDir w' who d.fd f dirp array blocks → w'.checks who d.buffer = true →
      (liveEntries array blocks).length < fuel →
      ∃ w'', (readdirAll who fuel d).erase w' = some ((liveEntries array blocks, true), w'')) := by
  refine ⟨fun w fd calls dir fresh asked => ?_,
    fun w pathname mode room d w' fuel opened dir checks enough => ?_⟩
  · obtain ⟨w', ran⟩ := getdentsRun_run dir asked
    rw [fresh, remaining_block] at ran
    exact ⟨w', ran⟩
  · obtain ⟨pos, limit, fresh⟩ := opendir_fresh opened dir
    have reading : Reading w' who f dirp array blocks d (liveEntries array blocks) :=
      ⟨dir, checks, by omega, by omega, by rw [pos, limit, fresh, remaining_block]; rfl,
        fun some => absurd limit some⟩
    exact reading.all enough

end Readdir

/-! ### The root of a new file system -/

/-- Process 1 has its third page, with the path `/` in it. The root is its directory. -/
def rootWorld : World where
  kernel := bootMachine [1] (fun _ => 2048) (fun _ => 0) (store (fun _ => 0) 2148 slash)
  tables := ⟨fun _ i => if i = 0 then BitVec.twoPow 32 29 else 0, fun _ => 0⟩
  files :=
    let vol := imageVolume plainLayout
    let files := bootFiles { vol with inodeTable := update vol.inodeTable rootSlot loadedRoot }
    { files with procs := fun p => { files.procs p with dirs := ⟨some rootSlot, some rootSlot⟩ } }
  dirPos := fun _ => ⟨0, 0⟩
  pipes := fun _ => ⟨fun _ => 0, 0, [], []⟩
  ttys := fun _ => ⟨0, 0, none, 0, 0, fun _ => 0, 0, 0, true⟩
  page := true
  block := true

theorem rootWorld_opens : ∃ w,
    (opendir 1 100#32 0#32 (some 200#32)).erase rootWorld = some (some ⟨0, 0, 0, 200#32⟩, w) ∧
    OpenDir w 1 0 2 rootSlot image [4] ∧ w.checks 1 200#32 = true := by
  obtain ⟨⟨d, w⟩, ran, facts⟩ := exists_of_any (by decide +kernel :
    ((opendir 1 100#32 0#32 (some 200#32)).erase rootWorld).any (fun result => decide
      (result.1 = some ⟨0, 0, 0, 200#32⟩ ∧ fdOpened (result.2.files.procs 1) 0 = some (0, 2) ∧
        (result.2.files.fdTable 2).filpIno = some rootSlot ∧
        sIsdir (result.2.files.vol.inodeTable rootSlot).iMode = true ∧
        (result.2.files.vol.inodeTable rootSlot).iDev = some .rootfs ∧
        (∀ z < nrTzones, ((result.2.files.vol.inodeTable rootSlot).iZone z).toNat = [4].getD z 0) ∧
        result.2.checks 1 200#32 = true)) = true)
  obtain ⟨rfl, opened, inode, isDir, device, zones, checks⟩ := facts
  -- no block has been read
  have cache : ((opendir 1 100#32 0#32 (some 200#32)).erase rootWorld).map
      (fun result => result.2.files.vol.cache) = some rootWorld.files.vol.cache := rfl
  rw [ran] at cache
  have same : w.files.vol.cache = (imageVolume plainLayout).cache := Option.some.inj cache
  have tree : Tree (imageVolume plainLayout) image := image_tree
  refine ⟨w, ran, ?_, checks⟩
  refine ⟨⟨0, opened⟩, inode, isDir, device, by decide, zones, ?_, ?_, ?_⟩
  · intro b member
    obtain rfl := mem_singleton.mp member
    rw [same]
    exact ⟨by decide, by decide⟩
  · rw [same]
    exact tree.rest.settled _
  · intro b member
    obtain rfl := mem_singleton.mp member
    decide +kernel

/-- The two entries of the root of a new file system are listed. -/
theorem root_listed : (liveEntries image [4]).length = 2 ∧
    ∃ w, (opendir 1 100#32 0#32 (some 200#32)).erase rootWorld = some (some ⟨0, 0, 0, 200#32⟩, w) ∧
    (∃ w', (getdentsRun 1 0 [(2300#32, 1#32), (2300#32, 5#32), (2300#32, 1#32)]).erase w =
      some (shares (liveEntries image [4]) [1, 5, 1], w')) ∧
    ∃ w', (readdirAll 1 32 ⟨0, 0, 0, 200#32⟩).erase w = some ((liveEntries image [4], true), w') := by
  obtain ⟨w, ran, dir, checks⟩ := rootWorld_opens
  have complete := getdents_lists_all 1 2 rootSlot image [4]
  have asked : ∀ call ∈ [(2300#32, 1#32), (2300#32, 5#32), (2300#32, 1#32)], call.2 ≠ 0#32 := by
    simp
  refine ⟨by decide +kernel, w, ran, complete.1 w 0 _ dir (opendir_fresh ran dir).2.2 asked, ?_⟩
  refine complete.2 _ _ _ _ _ w 32 ran dir checks ?_
  exact Nat.lt_succ_of_le (length_liveEntries_le image [4])

end Winix.Fs
