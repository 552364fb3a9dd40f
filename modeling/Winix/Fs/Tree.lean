/-
**The tree of directories.**

The directories of a volume are a tree: an inode number leads to the inode, a directory's inode to its
entries, an entry to an inode number.

* `lookupZones_run`: a lookup in a directory finds the first of its entries with the name.
* `getInode_run`: an inode that is in use can be read, and reading it does not change the tree.
-/

import Winix.Fs.Blocks
import Winix.Fs.Names
import Mathlib.Data.List.Find

namespace Winix.Fs

open Kernel Lib Function List Option Prog

/-! ### The entries of a directory -/

/-- An entry of a directory. -/
structure Entry where
  name : List Word
  ino : Int
  deriving DecidableEq

/-- The entry of a block. -/
def entryAt (array : Nat → Word) (b slot : Nat) : Entry where
  name := nameWithin nameMax fun k => array (b * blockSize + (direntSize * slot + 2 + k))
  ino := (array (b * blockSize + direntSize * slot)).toInt

/-- The entries in a block. -/
def blockEntries (array : Nat → Word) (b : Nat) : List Entry :=
  (List.range wholeSlots).map (entryAt array b)

/-- The entries in the blocks of a directory. -/
def dirEntries (array : Nat → Word) (zones : List Word) : List Entry :=
  (zones.filter (· ≠ 0#32)).flatMap fun zone => blockEntries array zone.toNat

/-- The inode number under a name. -/
def findEntry (entries : List Entry) (name : List Word) : Option Int :=
  (entries.find? fun e => e.name = name).map Entry.ino

/-- A component of a path. -/
structure ComponentName (name : List Word) : Prop where
  nonempty : name ≠ []
  plain : ∀ c ∈ name, c ≠ 0#32 ∧ c.toNat < 256
  short : name.length < nameMax

section Lookup

variable {v : Volume} {array : Nat → Word} {i : BufNr} {b : Nat} {name : List Word}

theorem bufWord_block {k : Nat} (inside : k < blockSize) :
    bufWord v i k = (v.cache.bufTable i).block k := by
  have place : (i * bufferSize + k) / bufferSize = i ∧ (i * bufferSize + k) % bufferSize = k := by
    unfold bufferSize blockSize at *
    omega
  simp only [bufWord, place, i.isLt, dif_pos, Layout.field, if_pos inside]

/-- The first character of the name of the entry that overhangs the block. -/
theorem dName_overhang : dName v i wholeSlots 0 = v.layout.pointer (v.cache.bufTable i).next := by
  have place : (i * bufferSize + (direntSize * wholeSlots + 2 + 0)) / bufferSize = i ∧
      (i * bufferSize + (direntSize * wholeSlots + 2 + 0)) % bufferSize = blockSize + 1 := by
    unfold bufferSize direntSize wholeSlots blockSize
    omega
  simp only [dName, bufWord, place, i.isLt, dif_pos]
  rfl

theorem strcmp_overhang (proper : ComponentName name) :
    char32Strcmp (dName v i wholeSlots) name ≠ 0#32 := by
  obtain ⟨c, rest, rfl⟩ := exists_cons_of_ne_nil proper.nonempty
  obtain ⟨nonzero, small⟩ := proper.plain c mem_cons_self
  have differs : dName v i wholeSlots 0 ≠ c := by
    rw [dName_overhang]
    rintro rfl
    cases next : (v.cache.bufTable i).next with
    | none =>
      rw [next] at nonzero
      exact nonzero rfl
    | some j =>
      have above := v.layout.above j
      rw [next] at small
      have := lt_of_le_of_lt above small
      omega
  rw [char32Strcmp, if_neg (fun same => differs same.2)]
  exact fun zero => differs (by bv_omega)

theorem entryAt_words {words : Nat → Word} {slot : Nat} (whole : slot < wholeSlots)
    (shows : ∀ k < blockSize, array (b * blockSize + k) = words k) :
    entryAt array b slot = ⟨nameWithin nameMax fun k => words (direntSize * slot + 2 + k),
      (words (direntSize * slot)).toInt⟩ := by
  have inside (k : Nat) (small : k ≤ direntSize) : direntSize * slot + k < blockSize := by
    unfold direntSize wholeSlots blockSize at *
    omega
  have number := shows _ (inside 0 (by decide))
  have name (k : Nat) (member : k ∈ List.range nameMax) :
      array (b * blockSize + (direntSize * slot + 2 + k)) = words (direntSize * slot + 2 + k) := by
    rw [Nat.add_assoc (direntSize * slot)]
    exact shows _ (inside (2 + k) (Nat.add_le_add_left (Nat.le_pred_of_lt (mem_range.mp member)) 2))
  rw [entryAt, nameWithin, map_congr_left name]
  exact congrArg (Entry.mk _) (congrArg BitVec.toInt number)

section

variable (shows : ∀ k < blockSize, (v.cache.bufTable i).block k = array (b * blockSize + k))
include shows
variable {slot : Nat}

theorem entryAt_shows (whole : slot < wholeSlots) :
    entryAt array b slot = ⟨nameWithin nameMax (dName v i slot), dIno v i slot⟩ :=
  entryAt_words whole fun k inside => by rw [bufWord_block inside, shows k inside]

theorem strcmp_entryAt (proper : ComponentName name) (whole : slot < wholeSlots) :
    char32Strcmp (dName v i slot) name = 0#32 ↔ (entryAt array b slot).name = name := by
  rw [entryAt_shows shows whole]
  exact char32Strcmp_eq_zero (fun c inName => (proper.plain c inName).1) proper.short

end

/-- The last slot overhangs the block; a test that it fails is made of the whole ones only. -/
theorem find_whole {test test' : Nat → Bool} (overhang : test wholeSlots = false)
    (same : ∀ slot < wholeSlots, test slot = test' slot) :
    (List.range dirSlots).find? test = (List.range wholeSlots).find? test' := by
  have split : List.range dirSlots = List.range wholeSlots ++ [wholeSlots] := rfl
  rw [split, find?_append, find?_singleton, overhang, if_neg Bool.false_ne_true, or_none]
  exact find?_congr fun slot member => same slot (mem_range.mp member)

theorem find_slot
    (shows : ∀ k < blockSize, (v.cache.bufTable i).block k = array (b * blockSize + k))
    (proper : ComponentName name) :
    ((List.range dirSlots).find? fun slot => char32Strcmp (dName v i slot) name = 0#32) =
      (List.range wholeSlots).find? fun slot => (entryAt array b slot).name = name :=
  find_whole (decide_eq_false (strcmp_overhang proper)) fun _ whole =>
    decide_eq_decide.mpr (strcmp_entryAt shows proper whole)

theorem dirEntries_zero (zones : List Word) :
    dirEntries array (0#32 :: zones) = dirEntries array zones := by
  simp [dirEntries]

theorem dirEntries_cons {zone : Word} (nonzero : zone ≠ 0#32) (zones : List Word) :
    dirEntries array (zone :: zones) = blockEntries array zone.toNat ++ dirEntries array zones := by
  simp [dirEntries, nonzero]

theorem findEntry_block (rest : List Entry) :
    findEntry (blockEntries array b ++ rest) name =
      match (List.range wholeSlots).find? fun slot => (entryAt array b slot).name = name with
      | some slot => some (entryAt array b slot).ino
      | none => findEntry rest name := by
  rw [findEntry, find?_append, blockEntries, find?_map]
  cases found : (List.range wholeSlots).find? ((fun e => decide (e.name = name)) ∘ entryAt array b) with
  | none =>
    simp only [comp_def] at found
    simp only [found, Option.map_none, Option.none_or]
    rfl
  | some slot =>
    simp only [comp_def] at found
    simp only [found, map_some, some_or]

/-- **A lookup finds the first entry with the name.** -/
theorem lookupZones_settled {own : Nat → Prop} (proper : ComponentName name) {zones : List Word}
    (idle : Idle (settled own array) v.cache)
    (inside : ∀ zone ∈ zones, zone ≠ 0#32 → own zone.toNat ∧ Inside v.cache zone.toNat) :
    ∃ c', lookupZones (some .rootfs) name zones v =
        some ((findEntry (dirEntries array zones) name).getD err, { v with cache := c' }) ∧
      Idle (settled own array) c' ∧ c'.rootfsDiskSize = v.cache.rootfsDiskSize := by
  induction zones generalizing v with
  | nil => exact ⟨v.cache, rfl, idle, rfl⟩
  | cons zone zones ih =>
    have later : ∀ z ∈ zones, z ≠ 0#32 → own z.toNat ∧ Inside v.cache z.toNat := fun z member =>
      inside z (mem_cons_of_mem _ member)
    by_cases zero : zone = 0#32
    · rw [lookupZones, if_pos zero, zero, dirEntries_zero]
      exact ih idle later
    · obtain ⟨mine, here⟩ := inside zone mem_cons_self zero
      obtain ⟨i, c₁, got, held, took⟩ := getBlock_idle idle here
      obtain ⟨c₂, put, idle₂, same⟩ := putBlock_held (v := { v with cache := c₁ }) held
      have size := same.size.trans took.size
      have shows := held.shows here.1 mine
      have found := find_slot (v := { v with cache := c₁ }) shows proper
      rw [lookupZones, if_neg zero, bind_run got, dirEntries_cons zero, findEntry_block]
      dsimp only
      rw [Prog.get_bind, found]
      cases slot? : (List.range wholeSlots).find? fun slot =>
          decide ((entryAt array zone.toNat slot).name = name) with
      | some slot =>
        refine ⟨c₂, ?_, idle₂, size⟩
        have whole := mem_range.mp (mem_of_find?_eq_some slot?)
        dsimp only
        rw [bind_run put, entryAt_shows (v := { v with cache := c₁ }) shows whole]
        rfl
      | none =>
        dsimp only
        rw [bind_run put]
        obtain ⟨c', looked, idle', size'⟩ := ih (v := { v with cache := c₂ }) idle₂
          fun z member nonzero => (later z member nonzero).imp_right (inside_of_size size)
        exact ⟨c', looked, idle', size'.trans size⟩

theorem lookupZones_run (proper : ComponentName name) {zones : List Word}
    (rest : Rest v.cache array) (inside : ∀ zone ∈ zones, zone ≠ 0#32 → Inside v.cache zone.toNat) :
    ∃ c', lookupZones (some .rootfs) name zones v =
        some ((findEntry (dirEntries array zones) name).getD err, { v with cache := c' }) ∧
      Rest c' array ∧ c'.rootfsDiskSize = v.cache.rootfsDiskSize := by
  obtain ⟨c', looked, idle, size⟩ := lookupZones_settled proper (rest.settled fun _ => True)
    fun zone member used => ⟨trivial, inside zone member used⟩
  exact ⟨c', looked, idle.rest_of_settled, size⟩

end Lookup

/-! ### The tree -/

/-- The superblock that `makefs` writes for a disk of fifty blocks, as `arch_superblock` leaves it. -/
structure Formatted (sb : Superblock) : Prop where
  inodeSize : sb.sInodeSize = 16
  blockmapnr : sb.sBlockmapnr = 1
  blockmapSize : sb.sBlockmapSize = 1024
  inodemapnr : sb.sInodemapnr = 2
  inodemapSize : sb.sInodemapSize = 1024
  inodeTablenr : sb.sInodeTablenr = 3
  inodeTableSize : sb.sInodeTableSize = 1024
  inodePerBlock : sb.sInodePerBlock = 64

/-- What of the superblock the reading of an inode depends on. -/
structure Laid (sb : Superblock) : Prop where
  inodeSize : sb.sInodeSize = 16
  inodemapnr : sb.sInodemapnr = 2
  inodemapSize : sb.sInodemapSize = 1024
  inodeTablenr : sb.sInodeTablenr = 3
  valid : ∀ num : Int, 0 < num → num < nrInodes → isValidInodeNum sb num = true

theorem Formatted.laid {sb : Superblock} (formatted : Formatted sb) : Laid sb := by
  refine ⟨formatted.inodeSize, formatted.inodemapnr, formatted.inodemapSize, formatted.inodeTablenr,
    fun num positive small => ?_⟩
  have count : (sb.sInodePerBlock * (sb.sInodeTableSize / BitVec.ofNat 32 blockSize)).toNat = 64 := by
    rw [formatted.inodePerBlock, formatted.inodeTableSize]
    rfl
  rw [isValidInodeNum, if_neg (by omega), count]
  refine decide_eq_true ?_
  simp only [nrInodes] at small
  omega

theorem range_of_valid {sb : Superblock} {num : Int} (valid : isValidInodeNum sb num = true) :
    0 < num ∧ num < nrInodes := by
  by_contra outside
  rw [isValidInodeNum, if_pos (by omega)] at valid
  cases valid

/-- The inode in the inode table on the disk. -/
def diskInode (array : Nat → Word) (num : Int) : Inode :=
  Inode.zero.load (fun k => array (3 * blockSize + k)) (num.toNat * inodeDiskSize)

/-- The inode with this number: the one in memory, if it has been read. -/
def theInode (v : Volume) (array : Nat → Word) (num : Int) : Inode :=
  match inodeSlots.find? fun i => (v.inodeTable i).iNum = num with
  | some i => v.inodeTable i
  | none => diskInode array num

/-- The number is one of the inode table and its bit in the inode map is set. -/
def InUse (array : Nat → Word) (num : Int) : Prop :=
  0 < num ∧ num < nrInodes ∧ bitOn (fun k => array (2 * blockSize + k)) num.toNat = true

/-- What the walk depends on. -/
structure Node where
  isDir : Bool
  linked : Bool
  zones : List Word
  deriving DecidableEq

/-- The node that an inode is. -/
def Inode.node (ino : Inode) : Node := ⟨anyBit ino.iMode sIfdir, ino.iNlinks ≠ 0#32, ino.zones⟩

/-- The node with this number. -/
def nodeAt (v : Volume) (array : Nat → Word) (num : Int) : Node := (theInode v array num).node

/-- The volume holds a tree of directories. -/
structure Tree (v : Volume) (array : Nat → Word) : Prop where
  formatted : Formatted v.rootSb
  size : v.cache.rootfsDiskSize = 51200
  rest : Rest v.cache array
  unique : ∀ i j, 0 < (v.inodeTable i).iNum → (v.inodeTable i).iNum = (v.inodeTable j).iNum → i = j
  used : ∀ i, 0 < (v.inodeTable i).iNum → InUse array (v.inodeTable i).iNum
  device : ∀ i, 0 < (v.inodeTable i).iNum → (v.inodeTable i).node.isDir = true →
    (v.inodeTable i).iDev = some .rootfs
  zones : ∀ num, InUse array num → (nodeAt v array num).isDir = true →
    ∀ zone ∈ (nodeAt v array num).zones, zone ≠ 0#32 → Inside v.cache zone.toNat
  entries : ∀ num, InUse array num → (nodeAt v array num).isDir = true →
    ∀ e ∈ dirEntries array (nodeAt v array num).zones, e.name ≠ [] → InUse array e.ino

/-- The tree is the same, and so are the inodes in memory. -/
structure SameTree (array : Nat → Word) (v v' : Volume) : Prop where
  node : ∀ num, 0 < num → nodeAt v' array num = nodeAt v array num
  kept : ∀ i, 0 < (v.inodeTable i).iNum → (v'.inodeTable i).iNum = (v.inodeTable i).iNum

section Tree

variable {v v' : Volume} {array : Nat → Word} {num : Int} {slot : InodeNr}

theorem SameTree.trans {v'' : Volume} (first : SameTree array v v') (second : SameTree array v' v'') :
    SameTree array v v'' where
  node num positive := (second.node num positive).trans (first.node num positive)
  kept i positive := by
    have kept := first.kept i positive
    rw [← kept] at positive ⊢
    exact second.kept i positive

theorem theInode_slot (unique : ∀ i j, 0 < (v.inodeTable i).iNum →
      (v.inodeTable i).iNum = (v.inodeTable j).iNum → i = j)
    (positive : 0 < (v.inodeTable slot).iNum) :
    theInode v array (v.inodeTable slot).iNum = v.inodeTable slot := by
  unfold theInode
  cases found : inodeSlots.find? fun i => (v.inodeTable i).iNum = (v.inodeTable slot).iNum with
  | none =>
    have absent := List.find?_eq_none.mp found slot (mem_finRange slot)
    simp at absent
  | some i =>
    have same : (v.inodeTable i).iNum = (v.inodeTable slot).iNum := by
      simpa using find?_some found
    rw [unique i slot (same ▸ positive) same]

theorem theInode_absent (absent : ∀ i, (v.inodeTable i).iNum ≠ num) :
    theInode v array num = diskInode array num := by
  have none : (inodeSlots.find? fun i => (v.inodeTable i).iNum = num) = none :=
    List.find?_eq_none.mpr fun i _ => by simpa using absent i
  rw [theInode, none]

/-- What a change of an inode in memory must keep. -/
def Inode.core (ino : Inode) : Int × Option DevId × Node := (ino.iNum, ino.iDev, ino.node)

/-- The same inodes, but for counts, sizes and times. -/
structure SameCores (v v' : Volume) : Prop where
  sb : v'.rootSb = v.rootSb
  size : v'.cache.rootfsDiskSize = v.cache.rootfsDiskSize
  core : ∀ i, (v'.inodeTable i).core = (v.inodeTable i).core

section

variable (same : SameCores v v')
include same

theorem SameCores.iNum (i : InodeNr) :
    (v'.inodeTable i).iNum = (v.inodeTable i).iNum := congrArg Prod.fst (same.core i)

theorem SameCores.node (i : InodeNr) :
    (v'.inodeTable i).node = (v.inodeTable i).node := congrArg (fun core => core.2.2) (same.core i)

theorem SameCores.nodeAt (num : Int) : nodeAt v' array num = nodeAt v array num := by
  have found : (inodeSlots.find? fun i => (v'.inodeTable i).iNum = num) =
      inodeSlots.find? fun i => (v.inodeTable i).iNum = num :=
    find?_congr fun i _ => by rw [same.iNum]
  unfold Fs.nodeAt theInode
  rw [found]
  split
  · exact same.node _
  · rfl

theorem SameCores.sameTree : SameTree array v v' :=
  ⟨fun num _ => same.nodeAt num, fun i _ => same.iNum i⟩

theorem SameCores.tree (rest : Rest v'.cache array) (tree : Tree v array) : Tree v' array where
  formatted := same.sb ▸ tree.formatted
  size := same.size.trans tree.size
  rest := rest
  unique i j := by
    rw [same.iNum, same.iNum]
    exact tree.unique i j
  used i := by
    rw [same.iNum]
    exact tree.used i
  device i positive isDir := by
    have device : (v'.inodeTable i).iDev = (v.inodeTable i).iDev :=
      congrArg (fun core => core.2.1) (same.core i)
    rw [device]
    exact tree.device i (same.iNum i ▸ positive) (same.node i ▸ isDir)
  zones num used isDir zone member nonzero := by
    rw [same.nodeAt] at isDir member
    exact inside_of_size same.size (tree.zones num used isDir zone member nonzero)
  entries num used isDir := by
    rw [same.nodeAt] at isDir ⊢
    exact tree.entries num used isDir

end

theorem SameCores.updateInode (v : Volume) (i : InodeNr) (change : Inode → Inode)
    (core : (change (v.inodeTable i)).core = (v.inodeTable i).core) :
    SameCores v (v.updateInode i change) := by
  refine ⟨rfl, rfl, fun j => ?_⟩
  show (update v.inodeTable i (change (v.inodeTable i)) j).core = _
  by_cases here : j = i
  · rw [here, update_self, core]
  · rw [update_of_ne here]

end Tree

/-! ### Reading inodes -/

section Read

variable {v : Volume} {array : Nat → Word} {num : Int}
variable {v' : Volume}

theorem inside_of_lt {c : Cache} (size : c.rootfsDiskSize = 51200) {b : Nat} (positive : 1 ≤ b)
    (small : b < 50) : Inside c b := by
  refine ⟨positive, ?_⟩
  rw [size]
  show b * 1024 + 1024 ≤ 51200
  omega

theorem isInodeInUse_idle {allowed : Nat → List Word → Prop} (laid : Laid v.rootSb)
    (map : Inside v.cache 2)
    (idle : Idle allowed v.cache) (positive : 0 < num) (small : num < nrInodes) :
    ∃ i c c', isInodeInUse num (some .rootfs) v =
        some (bitOn (c.bufTable i).block num.toNat, { v with cache := c' }) ∧
      Held allowed c i 2 ∧ Took v.cache allowed [] 2 i c ∧ Idle allowed c' ∧
      c'.rootfsDiskSize = v.cache.rootfsDiskSize := by
  have block : v.rootSb.sInodemapnr.toNat = 2 := by
    rw [laid.inodemapnr]
    rfl
  obtain ⟨i, c, got, held, took⟩ := derefBlock_idle idle (block.symm ▸ map)
  obtain ⟨c', put, idle', same⟩ := putBlock_held (v := { v with cache := c }) held
  have bit : isBitOn (c.bufTable i).block v.rootSb.sInodemapSize.toNat num.toNat =
      bitOn (c.bufTable i).block num.toNat := by
    rw [laid.inodemapSize, isBitOn, if_neg]
    simp only [nrInodes] at small
    show ¬ 1024 * 32 < num.toNat
    omega
  refine ⟨i, c, c', ?_, block ▸ held, block ▸ took, idle', same.size.trans took.size⟩
  rw [isInodeInUse, bind_run derefSb_run, laid.valid num positive small, Bool.not_true,
    if_neg Bool.false_ne_true, bind_run got, ← bit]
  exact (bind_run readBlock_run).trans (bind_run put)

theorem isInodeInUse_run (laid : Laid v.rootSb) (map : Inside v.cache 2)
    (idle : Idle (settled (fun _ => True) array) v.cache) (used : InUse array num) :
    ∃ c', isInodeInUse num (some .rootfs) v = some (true, { v with cache := c' }) ∧
      Idle (settled (fun _ => True) array) c' ∧ c'.rootfsDiskSize = v.cache.rootfsDiskSize := by
  obtain ⟨positive, small, bit⟩ := used
  obtain ⟨i, c, c', ran, held, -, idle', size⟩ := isInodeInUse_idle laid map idle positive small
  have inside : num.toNat / 32 < blockSize := by
    simp only [nrInodes] at small
    unfold blockSize
    omega
  have shown : bitOn (c.bufTable i).block num.toNat = true := by
    rw [bitOn, held.shows (by decide) trivial _ inside]
    exact bit
  exact ⟨c', shown ▸ ran, idle', size⟩

theorem Tree.free (tree : Tree v array) : ∃ i, (v.inodeTable i).iNum ≤ 0 := by
  by_contra full
  push Not at full
  have count := Finset.card_le_card_of_injOn (fun i => (v.inodeTable i).iNum.toNat - 1)
    (s := (Finset.univ : Finset InodeNr)) (t := Finset.range 47) (fun i _ => ?_)
    (fun i _ j _ same => ?_)
  · rw [Finset.card_univ, Fintype.card_fin, Finset.card_range] at count
    exact absurd count (by decide)
  · obtain ⟨positive, small, -⟩ := tree.used i (full i)
    simp only [nrInodes] at small
    simp only [Finset.coe_range, Set.mem_Iio]
    omega
  · have first := full i
    have second := full j
    dsimp only at same
    exact tree.unique i j first (by omega)

theorem getFreeInodeSlot_run (free : ∃ i, (v.inodeTable i).iNum ≤ 0) :
    ∃ slot, getFreeInodeSlot v = some (some slot, v.updateInode slot fun _ => Inode.zero) ∧
      (v.inodeTable slot).iNum ≤ 0 := by
  obtain ⟨i, free⟩ := free
  cases found : inodeSlots.find? fun i => (v.inodeTable i).iNum ≤ 0 with
  | none =>
    have absent := List.find?_eq_none.mp found i (mem_finRange i)
    simp only [decide_eq_true_eq] at absent
    exact absurd free absent
  | some slot =>
    refine ⟨slot, ?_, by simpa using find?_some found⟩
    rw [getFreeInodeSlot, Prog.get_bind, found]
    rfl

theorem inode_place (laid : Laid v.rootSb) (positive : 0 < num) (small : num < nrInodes) :
    inodeBlock v.rootSb num = 3 ∧ inodeOffset v.rootSb num = num.toNat * inodeDiskSize := by
  have places : ∀ n : Fin 48, BitVec.ofNat 32 n * 16 / BitVec.ofNat 32 blockSize + 3 = (3 : Word) ∧
      (BitVec.ofNat 32 n * 16).toNat % blockSize = n * inodeDiskSize := by decide
  obtain ⟨n, rfl⟩ := Int.eq_ofNat_of_zero_le positive.le
  have place := places ⟨n, by simp only [nrInodes] at small; omega⟩
  rw [inodeBlock, inodeOffset, laid.inodeSize, laid.inodeTablenr, BitVec.ofInt_natCast]
  exact place

/-- What `read_inode` leaves: the inode in a slot that was free. -/
structure Installed (array : Nat → Word) (v : Volume) (slot : InodeNr) (num : Int) (v' : Volume) :
    Prop where
  free : (v.inodeTable slot).iNum ≤ 0
  core : (v'.inodeTable slot).core = (num, some .rootfs, (diskInode array num).node)
  others : ∀ j, j ≠ slot → v'.inodeTable j = v.inodeTable j
  sb : v'.rootSb = v.rootSb
  size : v'.cache.rootfsDiskSize = v.cache.rootfsDiskSize
  rest : Rest v'.cache array

theorem archInode_run (slot : InodeNr) : ∃ v', archInode slot v = some (⟨⟩, v') ∧
    v'.cache = v.cache ∧ v'.rootSb = v.rootSb ∧
    (v'.inodeTable slot).core = (v.inodeTable slot).core ∧
    ∀ j, j ≠ slot → v'.inodeTable j = v.inodeTable j := by
  refine ⟨_, rfl, ?_⟩
  dsimp only
  split_ifs
  · exact ⟨rfl, rfl, rfl, fun _ _ => rfl⟩
  · refine ⟨rfl, rfl, ?_, fun j other => update_of_ne other ..⟩
    show (update v.inodeTable slot _ slot).core = _
    rw [update_self]
    rfl

theorem initInodeNonDisk_run (slot : InodeNr) (num : Int) (dev : Option DevId)
    (sb : Option Superblock) : ∃ v', initInodeNonDisk slot num dev sb v = some (⟨⟩, v') ∧
    v'.cache = v.cache ∧ v'.rootSb = v.rootSb ∧
    (v'.inodeTable slot).core = (num, dev, (v.inodeTable slot).node) ∧
    ∀ j, j ≠ slot → v'.inodeTable j = v.inodeTable j := by
  refine ⟨_, rfl, rfl, rfl, ?_, fun j other => update_of_ne other ..⟩
  show (update v.inodeTable slot _ slot).core = _
  rw [update_self]
  split
  · rfl
  · dsimp only
    split_ifs <;> rfl

/-- The inode that is read from a buffer with its block of the table. -/
theorem load_node {c : Cache} {i : BufNr} (held : Held (settled (fun _ => True) array) c i 3)
    (positive : 0 < num) (small : num < nrInodes) (ino : Inode) :
    (ino.load (c.bufTable i).block (num.toNat * inodeDiskSize)).node = (diskInode array num).node := by
  have word : ∀ k < inodeDiskSize, (c.bufTable i).block (num.toNat * inodeDiskSize + k) =
      array (3 * blockSize + (num.toNat * inodeDiskSize + k)) := fun k inside => by
    refine held.shows (by decide) trivial _ ?_
    simp only [nrInodes] at small
    unfold inodeDiskSize blockSize at *
    omega
  have mode := word 0 (by decide)
  have links := word 1 (by decide)
  rw [Nat.add_zero] at mode
  simp only [Inode.node, Inode.load, diskInode, mode, links, Inode.zones, Node.mk.injEq, true_and]
  refine map_congr_left fun zone member => ?_
  have few := mem_range.mp member
  have word := word (8 + zone) (by unfold nrTzones inodeDiskSize at *; omega)
  rw [← Nat.add_assoc] at word
  rw [if_pos few, if_pos few, word]

/-- The slot after the record has been copied into it. -/
def Volume.copied (v : Volume) (slot : InodeNr) (num : Int) (words : Nat → Word) : Volume :=
  ((v.updateInode slot fun _ => Inode.zero).updateInode slot fun ino =>
    ino.load words (num.toNat * inodeDiskSize)).updateInode slot fun ino =>
      { ino with iCount := ino.iCount + 1 }

theorem Volume.copied_same {slot : InodeNr} {words : Nat → Word} :
    (v.copied slot num words).inodeTable slot =
    { Inode.zero.load words (num.toNat * inodeDiskSize) with iCount := 1 } := by
  rw [copied, updateInode_same, updateInode_same, updateInode_same]
  rfl

theorem Volume.copied_of_ne {slot j : InodeNr} {words : Nat → Word} (other : j ≠ slot) :
    (v.copied slot num words).inodeTable j = v.inodeTable j := by
  rw [copied, updateInode_of_ne other, updateInode_of_ne other, updateInode_of_ne other]

section Steps

variable {allowed : Nat → List Word → Prop} {slot : InodeNr} {c₁ : Cache}
variable (laid : Laid v.rootSb) (positive : 0 < num) (small : num < nrInodes) (table : Inside c₁ 3)
  (idle : Idle allowed c₁)
  (cleared : getFreeInodeSlot v = some (some slot, v.updateInode slot fun _ => Inode.zero))
  (inUse : isInodeInUse num (some .rootfs) (v.updateInode slot fun _ => Inode.zero) =
    some (true, { v.updateInode slot (fun _ => Inode.zero) with cache := c₁ }))
include laid positive small table idle cleared inUse

/-- The steps of `read_inode` for an inode in use. -/
theorem readInode_steps : ∃ i c v₁ v₂ c', Held allowed c i 3 ∧
      initInodeNonDisk slot num (some .rootfs) (some v.rootSb)
        ({ v with cache := c }.copied slot num (c.bufTable i).block) = some (⟨⟩, v₁) ∧
      archInode slot v₁ = some (⟨⟩, v₂) ∧
      readInode num (some .rootfs) v = some ((ok, some slot), { v₂ with cache := c' }) ∧
      Idle allowed c' ∧ c'.rootfsDiskSize = c₁.rootfsDiskSize := by
  obtain ⟨place, offset⟩ := inode_place laid positive small
  have inside : Inside c₁ (inodeBlock v.rootSb num).toNat := by
    rw [place]
    exact table
  obtain ⟨i, c, got, held, took⟩ := derefBlock_idle
    (v := { v.updateInode slot (fun _ => Inode.zero) with cache := c₁ }) idle inside
  rw [place] at held
  obtain ⟨v₁, initialised, cache₁, -⟩ := initInodeNonDisk_run
    (v := { v with cache := c }.copied slot num (c.bufTable i).block) slot num (some .rootfs)
    (some v.rootSb)
  obtain ⟨v₂, arched, cache₂, -⟩ := archInode_run (v := v₁) slot
  have same : v₂.cache = c := cache₂.trans cache₁
  obtain ⟨c', put, idle', blocks⟩ := putBlock_held (v := v₂) (same ▸ held)
  refine ⟨i, c, v₁, v₂, c', held, initialised, arched, ?_, idle', ?_⟩
  · rw [readInode, bind_run derefSb_run, bind_run cleared]
    dsimp only
    rw [bind_run inUse, Bool.not_true, if_neg Bool.false_ne_true, if_neg positive.ne',
      bind_run got, bind_run readBlock_run, bind_run updateInode_run,
      bind_run updateInode_run, offset]
    exact (bind_run initialised).trans ((bind_run arched).trans (bind_run put))
  · rw [blocks.size, same]
    exact took.size

theorem readInode_cores : ∃ i c v', Held allowed c i 3 ∧
      readInode num (some .rootfs) v = some ((ok, some slot), v') ∧
      (v'.inodeTable slot).core = (num, some .rootfs,
        (Inode.zero.load (c.bufTable i).block (num.toNat * inodeDiskSize)).node) ∧
      (∀ j, j ≠ slot → v'.inodeTable j = v.inodeTable j) ∧ v'.rootSb = v.rootSb ∧
      v'.cache.rootfsDiskSize = c₁.rootfsDiskSize ∧ Idle allowed v'.cache := by
  obtain ⟨i, c, v₁, v₂, c', held, initialised, arched, read, idle', size⟩ :=
    readInode_steps laid positive small table idle cleared inUse
  obtain ⟨v₁', initialised', -, sb₁, core₁, others₁⟩ := initInodeNonDisk_run
    (v := { v with cache := c }.copied slot num (c.bufTable i).block) slot num (some .rootfs)
    (some v.rootSb)
  obtain ⟨-, rfl⟩ := run_unique initialised' initialised
  obtain ⟨v₂', arched', -, sb₂, core₂, others₂⟩ := archInode_run (v := v₁') slot
  obtain ⟨-, rfl⟩ := run_unique arched' arched
  refine ⟨i, c, _, held, read, ?_, fun j other => ?_, sb₂.trans sb₁, size, idle'⟩
  · show (v₂'.inodeTable slot).core = _
    rw [core₂, core₁, Volume.copied_same]
    rfl
  · show v₂'.inodeTable j = _
    rw [others₂ j other, others₁ j other, Volume.copied_of_ne other]

end Steps

/-- **An inode in use can be read**, if there is a slot for it. -/
theorem readInode_laid (laid : Laid v.rootSb) (map : Inside v.cache 2) (table : Inside v.cache 3)
    (rest : Rest v.cache array) (room : ∃ i, (v.inodeTable i).iNum ≤ 0) (used : InUse array num) :
    ∃ slot v', readInode num (some .rootfs) v = some ((ok, some slot), v') ∧
      Installed array v slot num v' := by
  obtain ⟨slot, cleared, free⟩ := getFreeInodeSlot_run room
  obtain ⟨c₁, inUse, idle, size₁⟩ :=
    isInodeInUse_run (v := v.updateInode slot fun _ => Inode.zero) laid map
    (rest.settled fun _ => True) used
  obtain ⟨i, c, v', held, read, core, others, sb, size, idle'⟩ := readInode_cores laid used.1 used.2.1
    (inside_of_size size₁ table) idle cleared inUse
  rw [load_node held used.1 used.2.1] at core
  exact ⟨slot, v', read, free, core, others, sb, size.trans size₁, idle'.rest_of_settled⟩

theorem readInode_run (tree : Tree v array) (used : InUse array num) :
    ∃ slot v', readInode num (some .rootfs) v = some ((ok, some slot), v') ∧
      Installed array v slot num v' :=
  readInode_laid tree.formatted.laid (inside_of_lt tree.size (by decide) (by decide))
    (inside_of_lt tree.size (by decide) (by decide)) tree.rest tree.free used

section

variable {slot : InodeNr} (installed : Installed array v slot num v')
include installed

theorem Installed.fields :
    (v'.inodeTable slot).iNum = num ∧ (v'.inodeTable slot).iDev = some .rootfs ∧
      (v'.inodeTable slot).node = (diskInode array num).node :=
  ⟨congrArg Prod.fst installed.core, congrArg (fun core => core.2.1) installed.core,
    congrArg (fun core => core.2.2) installed.core⟩

theorem Installed.number {i : InodeNr} (other : i ≠ slot) :
    (v'.inodeTable i).iNum = (v.inodeTable i).iNum := by
  rw [installed.others i other]

variable (tree : Tree v array) (used : InUse array num) (absent : ∀ i, (v.inodeTable i).iNum ≠ num)
include tree absent

theorem Installed.unique (i j : InodeNr)
    (positive : 0 < (v'.inodeTable i).iNum) (same : (v'.inodeTable i).iNum = (v'.inodeTable j).iNum) :
    i = j := by
  by_cases hereI : i = slot
  · by_cases hereJ : j = slot
    · rw [hereI, hereJ]
    · rw [hereI, installed.fields.1, installed.number hereJ] at same
      exact absurd same.symm (absent j)
  · by_cases hereJ : j = slot
    · rw [hereJ, installed.fields.1, installed.number hereI] at same
      exact absurd same (absent i)
    · rw [installed.number hereI] at positive same
      rw [installed.number hereJ] at same
      exact tree.unique i j positive same

include used

theorem Installed.nodeAt {n : Int} (positive : 0 < n) : nodeAt v' array n = nodeAt v array n := by
  have unique := installed.unique tree absent
  obtain ⟨number, -, node⟩ := installed.fields
  unfold Fs.nodeAt
  by_cases known : ∃ i, (v.inodeTable i).iNum = n
  · obtain ⟨i, rfl⟩ := known
    have other : i ≠ slot := by
      rintro rfl
      exact absurd installed.free (not_le.mpr positive)
    have same := installed.number other
    rw [theInode_slot tree.unique positive, ← same, theInode_slot unique (same.symm ▸ positive),
      installed.others i other]
  · push Not at known
    rw [theInode_absent known]
    by_cases new : n = num
    · rw [new, ← number, theInode_slot unique (number.symm ▸ used.1), number, node]
    · have absent' : ∀ i, (v'.inodeTable i).iNum ≠ n := fun i => by
        by_cases here : i = slot
        · rw [here, number]
          exact Ne.symm new
        · rw [installed.number here]
          exact known i
      rw [theInode_absent absent']

theorem Installed.sameTree : SameTree array v v' := by
  refine ⟨fun n => installed.nodeAt tree used absent, fun i positive => installed.number ?_⟩
  rintro rfl
  exact absurd installed.free (not_le.mpr positive)

theorem Installed.keeps : Tree v' array where
  formatted := installed.sb ▸ tree.formatted
  size := installed.size.trans tree.size
  rest := installed.rest
  unique := installed.unique tree absent
  used i positive := by
    by_cases here : i = slot
    · rw [here, installed.fields.1]
      exact used
    · rw [installed.number here] at positive ⊢
      exact tree.used i positive
  device i positive isDir := by
    by_cases here : i = slot
    · rw [here]
      exact installed.fields.2.1
    · rw [installed.others i here] at *
      exact tree.device i positive isDir
  zones n inUse isDir zone member nonzero := by
    rw [installed.nodeAt tree used absent inUse.1] at isDir member
    exact inside_of_size installed.size (tree.zones n inUse isDir zone member nonzero)
  entries n inUse isDir := by
    rw [installed.nodeAt tree used absent inUse.1] at isDir ⊢
    exact tree.entries n inUse isDir

end

/-- **An inode in use is found**, in memory or on the disk, and the tree stays as it is. -/
theorem getInode_run (tree : Tree v array) (used : InUse array num) :
    ∃ slot v', getInode num (some .rootfs) v = some (slot, v') ∧ Tree v' array ∧
      SameTree array v v' ∧ (v'.inodeTable slot).iNum = num := by
  cases found : inodeSlots.find? fun i => (v.inodeTable i).iNum = num with
  | some rep =>
    have same : SameCores v (v.updateInode rep fun i => { i with iCount := i.iCount + 1 }) :=
      SameCores.updateInode v rep _ rfl
    refine ⟨rep, _, ?_, same.tree tree.rest tree, same.sameTree, ?_⟩
    · rw [getInode, Prog.get_bind, found]
      rfl
    · rw [same.iNum]
      simpa using find?_some found
  | none =>
    have absent : ∀ i, (v.inodeTable i).iNum ≠ num := fun i => by
      simpa using List.find?_eq_none.mp found i (mem_finRange i)
    obtain ⟨slot, v', read, installed⟩ := readInode_run tree used
    refine ⟨slot, v', ?_, installed.keeps tree used absent, installed.sameTree tree used absent,
      installed.fields.1⟩
    rw [getInode, Prog.get_bind, found]
    dsimp only
    rw [bind_run read]
    rfl

end Read

end Winix.Fs
