/-
**A directory is a finite map, as far as its blocks go.**

`add_inode_to_directory`, `remove_inode_from_dir` and `advance` run over the entries of the blocks of a
directory. The loops stop at the end of the block, but the last entry they come to overhangs it: its
name lies in the fields of `struct block_buffer` behind the block. The calls are modelled again here
with a log of the words that they read as an entry (`EntryRead`).

* `NameDir.look`, `NameDir.add`, `NameDir.remove`: what each call does to the names of a directory;
* **`directory_map_iff`**: a call acts on it as on a finite map if and only if it finds what it looks
  for before the entry that overhangs the block.
-/

import Mathlib.Data.List.GetD
import Winix.Fs.Alloc
import Winix.Lib.Logged
import Winix.Lib.Table

namespace Winix.Fs

open Kernel Lib Function List Prog

/-! ### The words that are read as an entry -/

/-- Words of a buffer that are read as (part of) an entry, from the start of the buffer. -/
structure EntryRead where
  buffer : BufNr
  first : Nat
  len : Nat

/-- A program that writes down the entries it reads. -/
abbrev DirM := Logged EntryRead Volume

/-- The words of the first string that `char32_strcmp` reads. -/
def strcmpReads (s1 : Nat → Word) : List Word → Nat
  | [] => 1
  | c :: s2 => if s1 0 ≠ 0#32 ∧ s1 0 = c then strcmpReads (fun k => s1 (k + 1)) s2 + 1 else 1

/-- The entries that a loop comes to, up to the one that it looks for. -/
def visited (p : Nat → Bool) : List Nat → List Nat
  | [] => []
  | slot :: rest => if p slot then [slot] else slot :: visited p rest

/-- `char32_strcmp(dirstream->dirent.d_name, string)`. -/
def nameRead (v : Volume) (buffer : BufNr) (string : List Word) (slot : Nat) : EntryRead :=
  ⟨buffer, direntSize * slot + 2, strcmpReads (dName v buffer slot) string⟩

/-- `dirstream->dirent.d_ino`. -/
def inoRead (buffer : BufNr) (slot : Nat) : EntryRead := ⟨buffer, direntSize * slot, 1⟩

/-- The loop of `advance` over the zones. -/
def lookupZonesLog (id : Option DevId) (string : List Word) : List Word → DirM Int
  | [] => return err
  | zone :: zones => do
    if zone = 0#32 then lookupZonesLog id string zones
    else match ← Logged.lift (getBlock zone id) with
      | none => lookupZonesLog id string zones
      | some buffer => do
        let v ← Logged.lift get
        Logged.write ((visited (fun slot => char32Strcmp (dName v buffer slot) string = 0#32)
          (List.range dirSlots)).map (nameRead v buffer string))
        match (List.range dirSlots).find? fun slot =>
            char32Strcmp (dName v buffer slot) string = 0#32 with
        | some slot => do
          Logged.write [inoRead buffer slot]
          Logged.lift (putBlock buffer)
          return dIno v buffer slot
        | none => do
          Logged.lift (putBlock buffer)
          lookupZonesLog id string zones

/-- `advance`. -/
def advanceLog (dirp : InodeNr) (string : List Word) : DirM Int := do
  if string = [] then return err
  else do
    let dir ← Logged.lift (readIno dirp)
    lookupZonesLog dir.iDev string dir.zones

/-- The loop of `add_inode_to_directory`. -/
def addZonesLog (dir ino : InodeNr) (string : List Word) : List Nat → DirM Int
  | [] => return enospc
  | i :: rest => do
    let bnr ← Logged.lift (growZone dir i)
    let d ← Logged.lift (readIno dir)
    let buf ← Logged.lift (derefBlock bnr d.iDev)
    let v ← Logged.lift get
    Logged.write ((visited (fun slot => dName v buf slot 0 = 0#32) (List.range dirSlots)).map
      fun slot =>
      ⟨buf, direntSize * slot + 2, 1⟩)
    match (List.range dirSlots).find? fun slot => dName v buf slot 0 = 0#32 with
    | some slot => Logged.lift (fillSlot ino string buf slot)
    | none => do
      Logged.lift (putBlock buf)
      addZonesLog dir ino string rest

/-- `add_inode_to_directory`. -/
def addInodeToDirectoryLog (who : Owner) (dir ino : InodeNr) (string : List Word) : DirM Int := do
  let d ← Logged.lift (readIno dir)
  if !sIsdir d.iMode then return einval
  else if !hasFileAccess who d wOk then return eacces
  else if dirnameLen ≤ string.length then return enametoolong
  else addZonesLog dir ino string (List.range nrTzones)

/-- `curr->dirent.d_ino == target->i_num && char32_strcmp(curr->dirent.d_name, name) == 0`. -/
def removeReads (v : Volume) (buf : BufNr) (num : Int) (name : List Word) (slot : Nat) :
    List EntryRead :=
  if dIno v buf slot = num then [inoRead buf slot, nameRead v buf name slot] else [inoRead buf slot]

/-- The loop of `remove_inode_from_dir`. -/
def removeZonesLog (id : Option DevId) (target : InodeNr) (name : List Word) : List Word → DirM Int
  | [] => return enoent
  | bnr :: rest => do
    if bnr = 0#32 then removeZonesLog id target name rest
    else do
      let buf ← Logged.lift (derefBlock bnr id)
      let v ← Logged.lift get
      let num := (v.inodeTable target).iNum
      Logged.write ((visited
        (fun slot => dIno v buf slot = num && char32Strcmp (dName v buf slot) name = 0#32)
        (List.range dirSlots)).flatMap (removeReads v buf num name))
      match (List.range dirSlots).find? fun slot =>
          dIno v buf slot = num && char32Strcmp (dName v buf slot) name = 0#32 with
      | some slot => Logged.lift (clearSlot target buf slot)
      | none => do
        Logged.lift (putBlock buf)
        removeZonesLog id target name rest

/-- `remove_inode_from_dir`. -/
def removeInodeFromDirLog (who : Owner) (dir target : InodeNr) (name : List Word) : DirM Int := do
  let d ← Logged.lift (readIno dir)
  if !hasFileAccess who d wOk then return eacces
  else removeZonesLog d.iDev target name d.zones

/-- The calls on a directory. -/
inductive DirCall
  | add (who : Owner) (ino : InodeNr) (string : List Word)
  | remove (who : Owner) (target : InodeNr) (name : List Word)
  | look (name : List Word)

/-- The function behind a call. -/
def DirCall.serve (dir : InodeNr) : DirCall → VolM Int
  | .add who ino string => addInodeToDirectory who dir ino string
  | .remove who target name => removeInodeFromDir who dir target name
  | .look name => advance dir name

/-- The call with its log. -/
def DirCall.traced (dir : InodeNr) : DirCall → DirM Int
  | .add who ino string => addInodeToDirectoryLog who dir ino string
  | .remove who target name => removeInodeFromDirLog who dir target name
  | .look name => advanceLog dir name

section Erase

variable {v : Volume} {dir ino target : InodeNr} {id : Option DevId} {string name : List Word}

theorem lookupZonesLog_erase (zones : List Word) :
    (lookupZonesLog id string zones).erase v = lookupZones id string zones v := by
  induction zones generalizing v with
  | nil => rfl
  | cons zone zones ih =>
    rw [lookupZonesLog, lookupZones]
    split_ifs
    · exact ih
    · refine Logged.lift_bind_erase fun found v₁ => ?_
      cases found with
      | none => exact ih
      | some buffer =>
        refine Logged.lift_bind_erase fun v₂ v₃ => ?_
        rw [Logged.write_bind_erase]
        cases (List.range dirSlots).find? fun slot =>
            char32Strcmp (dName v₂ buffer slot) string = 0#32 with
        | none => exact Logged.lift_bind_erase fun _ _ => ih
        | some slot => rfl

theorem advanceLog_erase : (advanceLog dir string).erase v = advance dir string v := by
  rw [advanceLog, advance]
  split_ifs
  · rfl
  · exact Logged.lift_bind_erase fun _ _ => lookupZonesLog_erase _

theorem addZonesLog_erase (zones : List Nat) :
    (addZonesLog dir ino string zones).erase v = addZones dir ino string zones v := by
  induction zones generalizing v with
  | nil => rfl
  | cons i zones ih =>
    rw [addZonesLog, addZones]
    refine Logged.lift_bind_erase fun bnr v₁ => Logged.lift_bind_erase fun d v₂ =>
      Logged.lift_bind_erase fun buf v₃ => Logged.lift_bind_erase fun v₄ v₅ => ?_
    rw [Logged.write_bind_erase]
    cases (List.range dirSlots).find? fun slot => dName v₄ buf slot 0 = 0#32 with
    | none => exact Logged.lift_bind_erase fun _ _ => ih
    | some slot => rfl

theorem addInodeToDirectoryLog_erase {who : Owner} :
    (addInodeToDirectoryLog who dir ino string).erase v = addInodeToDirectory who dir ino string v := by
  rw [addInodeToDirectoryLog, addInodeToDirectory]
  refine Logged.lift_bind_erase fun d v₁ => ?_
  split_ifs
  · rfl
  · rfl
  · rfl
  · exact addZonesLog_erase _

theorem removeZonesLog_erase (zones : List Word) :
    (removeZonesLog id target name zones).erase v = removeZones id target name zones v := by
  induction zones generalizing v with
  | nil => rfl
  | cons bnr zones ih =>
    rw [removeZonesLog, removeZones]
    split_ifs
    · exact ih
    · refine Logged.lift_bind_erase fun buf v₁ => Logged.lift_bind_erase fun v₂ v₃ => ?_
      rw [Logged.write_bind_erase]
      cases (List.range dirSlots).find? fun slot =>
          dIno v₂ buf slot = (v₂.inodeTable target).iNum &&
            char32Strcmp (dName v₂ buf slot) name = 0#32 with
      | none => exact Logged.lift_bind_erase fun _ _ => ih
      | some slot => rfl

/-- **The log is of the calls of the file system.** -/
theorem DirCall.traced_erase (call : DirCall) : (call.traced dir).erase v = call.serve dir v := by
  cases call with
  | add who ino string => exact addInodeToDirectoryLog_erase
  | look name => exact advanceLog_erase
  | remove who target name =>
    show (removeInodeFromDirLog who dir target name).erase v = removeInodeFromDir who dir target name v
    rw [removeInodeFromDirLog, removeInodeFromDir]
    refine Logged.lift_bind_erase fun d v₁ => ?_
    split_ifs
    · rfl
    · exact removeZonesLog_erase _

end Erase

/-! ### The names of a directory -/

/-- The entries of a directory: blocks and slots. -/
def places (zones : List Word) : List (Nat × Nat) :=
  (zones.filter (· ≠ 0#32)).flatMap fun zone => (List.range wholeSlots).map (Prod.mk zone.toNat)

/-- The name of the entry at a place. -/
def nameAt (array : Nat → Word) (p : Nat × Nat) : List Word := (entryAt array p.1 p.2).name

/-- Its inode number. -/
def inoAt (array : Nat → Word) (p : Nat × Nat) : Int := (entryAt array p.1 p.2).ino

/-- The words that the cache shows. -/
def shownWord (c : Cache) (k : Nat) : Word := (shown c (k / blockSize)).getD (k % blockSize) 0#32

/-- The inode numbers under the names of a directory. -/
def dirNames (v : Volume) (dir : InodeNr) : List Word → Option Int :=
  findEntry (dirEntries (shownWord v.cache) (v.inodeTable dir).zones)

/-- A directory whose blocks are settled. The blocks in `own` may be those of other files, too. -/
structure NameDir (v : Volume) (dir : InodeNr) (own : Nat → Prop) (array : Nat → Word) : Prop where
  isDir : sIsdir (v.inodeTable dir).iMode = true
  device : (v.inodeTable dir).iDev = some .rootfs
  bounded : Bounded v.rootSb
  size : v.cache.rootfsDiskSize = 51200
  idle : Idle (settled own array) v.cache
  settled : ∀ b, own b → b ≠ 0 ∧ b ≠ mapBlock
  zones : ∀ zone ∈ (v.inodeTable dir).zones, zone ≠ 0#32 → own zone.toNat ∧ Inside v.cache zone.toNat
  names : Distinct [] (places (v.inodeTable dir).zones) (nameAt array)
  ended : ∀ p ∈ places (v.inodeTable dir).zones, (nameAt array p).length < dirnameLen

section Names

variable {v : Volume} {dir : InodeNr} {own : Nat → Prop} {array array' : Nat → Word} {zones : List Word}
  {name : List Word} {p : Nat × Nat} {b slot : Nat}

theorem mem_places : p ∈ places zones ↔
    (∃ zone ∈ zones, zone ≠ 0#32 ∧ zone.toNat = p.1) ∧ p.2 < wholeSlots := by
  obtain ⟨b, slot⟩ := p
  simp only [places, mem_flatMap, mem_filter, mem_map, mem_range, Prod.mk.injEq,
    decide_eq_true_iff]
  constructor
  · rintro ⟨zone, ⟨member, used⟩, slot', inside, rfl, rfl⟩
    exact ⟨⟨zone, member, used, rfl⟩, inside⟩
  · rintro ⟨⟨zone, member, used, rfl⟩, inside⟩
    exact ⟨zone, ⟨member, used⟩, slot, inside, rfl, rfl⟩

theorem findEntry_eq : findEntry (dirEntries array zones) name =
    tableFind (places zones) (nameAt array) (inoAt array) name := by
  have entries : dirEntries array zones = (places zones).map fun p => entryAt array p.1 p.2 := by
    rw [places, map_flatMap]
    simp only [map_map]
    rfl
  rw [findEntry, entries, find?_map, Option.map_map]
  rfl

theorem entryAt_congr (same : ∀ k < blockSize, array' (b * blockSize + k) = array (b * blockSize + k))
    (whole : slot < wholeSlots) : entryAt array' b slot = entryAt array b slot :=
  (entryAt_words whole same).trans (entryAt_words whole fun _ _ => rfl).symm

theorem NameDir.mine (directory : NameDir v dir own array)
    (member : p ∈ places (v.inodeTable dir).zones) : own p.1 ∧ Inside v.cache p.1 := by
  obtain ⟨⟨zone, member, used, same⟩, -⟩ := mem_places.mp member
  exact same ▸ directory.zones zone member used

theorem Idle.shown_settled (idle : Idle (Fs.settled own array) v.cache) (mine : own b)
    (positive : b ≠ 0) :
    shown v.cache b = slice array (b * blockSize) blockSize :=
  idle.stores.shown_allowed positive mine

theorem Idle.shownWord_settled (idle : Idle (Fs.settled own array) v.cache) (mine : own b)
    (positive : b ≠ 0) {k : Nat} (inside : k < blockSize) :
    shownWord v.cache (b * blockSize + k) = array (b * blockSize + k) := by
  have place : (b * blockSize + k) / blockSize = b ∧ (b * blockSize + k) % blockSize = k := by
    unfold blockSize at *
    omega
  rw [shownWord, place.1, place.2, idle.shown_settled mine positive, slice,
    getD_eq_getElem _ _ (by simpa using inside), getElem_map, getElem_range]

section

variable (directory : NameDir v dir own array)
include directory

theorem NameDir.entryAt_shown (member : p ∈ places (v.inodeTable dir).zones) :
    entryAt (shownWord v.cache) p.1 p.2 = entryAt array p.1 p.2 := by
  have mine : own p.1 := (directory.mine member).1
  have positive : p.1 ≠ 0 := (directory.settled p.1 mine).1
  have whole : p.2 < wholeSlots := (mem_places.mp member).2
  have words : ∀ k < blockSize, shownWord v.cache (p.1 * blockSize + k) = array (p.1 * blockSize + k) :=
    fun k inside => directory.idle.shownWord_settled mine positive inside
  exact entryAt_congr words whole

theorem NameDir.dirNames_eq (name : List Word) :
    dirNames v dir name = tableFind (places (v.inodeTable dir).zones) (nameAt array)
      (inoAt array) name := by
  rw [dirNames, findEntry_eq]
  exact tableFind_congr (fun p member => congrArg Entry.name (directory.entryAt_shown member))
    fun p member => congrArg Entry.ino (directory.entryAt_shown member)

/-- **Looking a name up.** -/
theorem NameDir.look (proper : ComponentName name) :
    ∃ c', advance dir name v = some ((dirNames v dir name).getD err, { v with cache := c' }) ∧
      Idle (Fs.settled own array) c' ∧ c'.rootfsDiskSize = v.cache.rootfsDiskSize := by
  obtain ⟨c', looked, idle, size⟩ := lookupZones_settled proper directory.idle directory.zones
  refine ⟨c', ?_, idle, size⟩
  rw [advance, if_neg proper.nonempty, bind_run readIno_run, directory.device, looked,
    directory.dirNames_eq, findEntry_eq]

end

end Names

/-! ### Changing an entry -/

/-- One entry has been written. -/
structure EntryChanged (array : Nat → Word) (b slot : Nat) (e : Entry) (array' : Nat → Word) :
    Prop where
  entry : entryAt array' b slot = e
  block : ∀ other < wholeSlots, other ≠ slot → (entryAt array b other).name.length < dirnameLen →
    entryAt array' b other = entryAt array b other
  others : ∀ b' ≠ b, ∀ k < blockSize, array' (b' * blockSize + k) = array (b' * blockSize + k)

section Changes

variable {v : Volume} {dir : InodeNr} {own : Nat → Prop} {array array' : Nat → Word} {b slot : Nat}
  {e : Entry} {string : List Word}
variable {target : Inode} {words : Nat → Word}

theorem entryChanged_of {words words' : Nat → Word}
    (shows : ∀ k < blockSize, words k = array (b * blockSize + k)) (whole : slot < wholeSlots)
    (outside : ∀ k, k < direntSize * slot ∨ direntSize * slot + direntSize ≤ k → words' k = words k)
    (name : nameWithin nameMax (fun k => words' (direntSize * slot + 2 + k)) = e.name)
    (number : (words' (direntSize * slot)).toInt = e.ino) :
    EntryChanged array b slot e (copyWords blockSize array (b * blockSize) words' 0) := by
  have inBlock (k : Nat) (inside : k < blockSize) :
      copyWords blockSize array (b * blockSize) words' 0 (b * blockSize + k) = words' k := by
    rw [copyWords_inside _ _ _ _ _ inside, Nat.zero_add]
  refine ⟨?_, fun other inside apart ended => ?_, fun b' apart k inside => ?_⟩
  · rw [entryAt_words whole inBlock, name, number]
  · -- the name of the other entry ends before the next one
    have words (k : Nat) (small : k < direntSize) :
        words' (direntSize * other + k) = array (b * blockSize + (direntSize * other + k)) := by
      rw [outside, shows]
      · unfold direntSize wholeSlots blockSize at *
        omega
      · unfold direntSize at *
        omega
    have first := words 0 (by decide)
    simp only [entryAt] at ended
    rw [entryAt_words inside inBlock, nameWithin_congr (by decide : dirnameLen ≤ nameMax)
      (fun k small => ?_) ended]
    · exact congrArg (Entry.mk _) (congrArg BitVec.toInt first)
    · rw [Nat.add_assoc (direntSize * other)]
      exact words (2 + k) (by unfold dirnameLen direntSize at *; omega)
  · refine copyBlock_outside _ _ ?_
    rw [div_blockSize inside]
    exact apart.symm

/-- `fill_dirent` and `curr->dev = …`. -/
def filled (target : Inode) (dev : DevId) (string : List Word) (slot : Nat) (words : Nat → Word) :
    Nat → Word :=
  update (fillDirent target string (direntSize * slot) words) (direntSize * slot + 32) dev.devId

/-- The words that `fill_dirent` writes for a name that fits. -/
theorem fillDirent_apply {place : Nat} {k : Nat} (apart : k ≠ place + 1) :
    fillDirent target string place words k =
      if k = place then BitVec.ofInt 32 target.iNum
      else char32Strncpy words (place + 2) string dirnameLen k := by
  unfold fillDirent
  cases direntType target.iMode with
  | none => simp only [update_apply]
  | some type => simp only [update_apply, if_neg apart]

theorem fillDirent_outside {place : Nat} (short : string.length < dirnameLen) {k : Nat}
    (outside : k < place ∨ place + direntSize ≤ k) :
    fillDirent target string place words k = words k := by
  unfold direntSize at outside
  rw [fillDirent_apply (by omega), if_neg (by omega), char32Strncpy_apply short.le]
  unfold dirnameLen at short
  by_cases before : k < place + 2
  · rw [if_pos before]
  · rw [if_neg before, if_neg (by omega), if_neg (by omega)]

theorem entryChanged_filled (dev : DevId)
    (shows : ∀ k < blockSize, words k = array (b * blockSize + k)) (whole : slot < wholeSlots)
    (plain : ∀ c ∈ string, c ≠ 0#32) (short : string.length < dirnameLen)
    (range : (BitVec.ofInt 32 target.iNum).toInt = target.iNum) :
    EntryChanged array b slot ⟨string, target.iNum⟩
      (copyWords blockSize array (b * blockSize) (filled target dev string slot words) 0) := by
  refine entryChanged_of shows whole (fun k outside => ?_) ?_ ?_
  · have apart : k ≠ direntSize * slot + 32 := by
      unfold direntSize at *
      omega
    rw [filled, update_of_ne apart, fillDirent_outside short outside]
  · have stored (k : Nat) (inside : k ≤ string.length) :
        filled target dev string slot words (direntSize * slot + 2 + k) =
          if k < string.length then string.getD k 0#32 else 0#32 := by
      have apart : direntSize * slot + 2 + k ≠ direntSize * slot + 32 := by
        unfold dirnameLen at short
        omega
      rw [filled, update_of_ne apart, fillDirent_apply (by omega), if_neg (by omega),
        char32Strncpy_apply short.le, if_neg (by omega), Nat.add_sub_cancel_left]
      by_cases before : k < string.length
      · rw [if_pos before, if_pos before]
      · rw [if_neg before, if_neg before, if_pos (by omega)]
    refine nameWithin_eq plain (lt_of_lt_of_le short (by decide)) (fun k inside => ?_) ?_
    · rw [stored k inside.le, if_pos inside, getD_eq_getElem _ _ inside]
    · rw [stored _ le_rfl, if_neg (Nat.lt_irrefl _)]
  · rw [filled, update_of_ne (by omega), fillDirent_apply (by omega), if_pos rfl]
    exact range

theorem entryChanged_cleared (shows : ∀ k < blockSize, words k = array (b * blockSize + k))
    (whole : slot < wholeSlots) :
    EntryChanged array b slot ⟨[], 0⟩ (copyWords blockSize array (b * blockSize)
      (update (update words (direntSize * slot + 2) 0#32) (direntSize * slot) 0#32) 0) := by
  refine entryChanged_of shows whole (fun k outside => ?_) ?_ ?_
  · unfold direntSize at *
    rw [update_of_ne (by omega), update_of_ne (by omega)]
  · refine nameWithin_eq (fun c member => absurd member not_mem_nil) (by decide)
      (fun k inside => absurd inside (Nat.not_lt_zero k)) ?_
    rw [update_of_ne (by simp), length_nil, Nat.add_zero, update_self]
  · rw [update_self]
    rfl

end Changes

/-! ### Reads that keep to the blocks -/

/-- The words are in the block. -/
def EntryRead.Within (read : EntryRead) : Prop := read.first + read.len ≤ blockSize

section Reads

variable {v : Volume} {p : Nat → Bool} {string name : List Word} {i : BufNr} {slot : Nat}
variable {slots : List Nat}

theorem mem_of_visited (member : slot ∈ visited p slots) : slot ∈ slots := by
  induction slots with
  | nil => exact member
  | cons first rest ih =>
    rw [visited] at member
    split_ifs at member
    · rw [mem_singleton.mp member]
      exact mem_cons_self
    · rcases mem_cons.mp member with rfl | later
      · exact mem_cons_self
      · exact mem_cons_of_mem _ (ih later)

theorem visited_append (p : Nat → Bool) (slots more : List Nat) :
    visited p (slots ++ more) = if slots.any p then visited p slots else slots ++ visited p more := by
  induction slots with
  | nil => rfl
  | cons first rest ih =>
    rw [cons_append, visited, visited, ih, any_cons]
    cases p first with
    | true => rfl
    | false => cases rest.any p <;> rfl

/-- The entries of a block are the whole ones and the one that overhangs. -/
theorem visited_slots (p : Nat → Bool) : visited p (List.range dirSlots) =
    if (List.range wholeSlots).any p then visited p (List.range wholeSlots)
    else List.range dirSlots := by
  have last : visited p [wholeSlots] = [wholeSlots] := by
    cases here : p wholeSlots <;> simp [visited, here]
  rw [show List.range dirSlots = List.range wholeSlots ++ [wholeSlots] from rfl, visited_append, last]

theorem visited_whole (found : ∃ slot < wholeSlots, p slot = true) :
    ∀ slot ∈ visited p (List.range dirSlots), slot < wholeSlots := by
  obtain ⟨slot, whole, holds⟩ := found
  intro other member
  rw [visited_slots, if_pos (any_eq_true.mpr ⟨slot, mem_range.mpr whole, holds⟩)] at member
  exact mem_range.mp (mem_of_visited member)

theorem mem_overhang : wholeSlots ∈ List.range dirSlots := mem_range.mpr (by decide)

theorem visited_none (absent : ∀ slot < wholeSlots, p slot = false) :
    visited p (List.range dirSlots) = List.range dirSlots := by
  rw [visited_slots, if_neg]
  rw [any_eq_true]
  rintro ⟨slot, member, holds⟩
  rw [absent slot (mem_range.mp member)] at holds
  cases holds

theorem strcmpReads_le (s1 : Nat → Word) (string : List Word) :
    strcmpReads s1 string ≤ string.length + 1 := by
  induction string generalizing s1 with
  | nil => exact Nat.le_refl 1
  | cons c string ih =>
    rw [strcmpReads]
    split_ifs
    · exact Nat.succ_le_succ (ih _)
    · exact Nat.succ_le_succ (Nat.zero_le _)

theorem strcmpReads_pos (s1 : Nat → Word) (string : List Word) : 1 ≤ strcmpReads s1 string := by
  cases string with
  | nil => exact Nat.le_refl 1
  | cons c string =>
    rw [strcmpReads]
    split_ifs <;> omega

theorem nameRead_within (whole : slot < wholeSlots) (short : string.length < nameMax) :
    (nameRead v i string slot).Within := by
  have most := strcmpReads_le (dName v i slot) string
  show direntSize * slot + 2 + strcmpReads _ _ ≤ blockSize
  unfold wholeSlots nameMax direntSize blockSize at *
  omega

theorem nameRead_overhang : ¬ (nameRead v i string wholeSlots).Within := by
  have least := strcmpReads_pos (dName v i wholeSlots) string
  show ¬ direntSize * wholeSlots + 2 + strcmpReads _ _ ≤ blockSize
  unfold wholeSlots direntSize blockSize at *
  omega

theorem inoRead_within (inside : slot < dirSlots) : (inoRead i slot).Within := by
  show direntSize * slot + 1 ≤ blockSize
  unfold dirSlots direntSize blockSize at *
  omega

/-- `remove_inode_from_dir` finds the entry before it takes the last word of a block for the number
of an entry with the inode. -/
def RemoveFits (array : Nat → Word) (num : Int) (name : List Word) : List Word → Prop
  | [] => True
  | zone :: zones =>
    if zone = 0#32 then RemoveFits array num name zones
    else (∃ slot < wholeSlots, entryAt array zone.toNat slot = ⟨name, num⟩) ∨
      (array (zone.toNat * blockSize + 1023)).toInt ≠ num ∧ RemoveFits array num name zones

theorem removeReads_within {num : Int} {read : EntryRead} (whole : slot < wholeSlots)
    (short : name.length < nameMax) (member : read ∈ removeReads v i num name slot) : read.Within := by
  have number : (inoRead i slot).Within := inoRead_within (Nat.lt_succ_of_lt whole)
  unfold removeReads at member
  split_ifs at member
  · rcases mem_pair.mp member with rfl | rfl
    · exact number
    · exact nameRead_within whole short
  · rw [mem_singleton.mp member]
    exact number

theorem removeReads_overhang {num : Int} :
    (∀ read ∈ removeReads v i num name wholeSlots, read.Within) ↔ dIno v i wholeSlots ≠ num := by
  unfold removeReads
  by_cases same : dIno v i wholeSlots = num
  · rw [if_pos same]
    refine ⟨fun reads => ?_, fun differs => absurd same differs⟩
    exact absurd (reads _ (mem_cons_of_mem _ mem_cons_self)) nameRead_overhang
  · rw [if_neg same]
    refine ⟨fun _ => same, fun _ read member => ?_⟩
    rw [mem_singleton.mp member]
    exact inoRead_within (by decide)

end Reads

/-! ### The calls -/

/-- What the calls on a directory leave alone. -/
structure Stays (v v' : Volume) (dir : InodeNr) : Prop where
  mode : (v'.inodeTable dir).iMode = (v.inodeTable dir).iMode
  device : (v'.inodeTable dir).iDev = (v.inodeTable dir).iDev
  access : ∀ who, hasFileAccess who (v'.inodeTable dir) wOk = hasFileAccess who (v.inodeTable dir) wOk
  number : ∀ i, (v'.inodeTable i).iNum = (v.inodeTable i).iNum
  bounded : Bounded v.rootSb → Bounded v'.rootSb
  size : v'.cache.rootfsDiskSize = v.cache.rootfsDiskSize

/-- A name that fits into an entry. -/
structure EntryName (string : List Word) : Prop extends ComponentName string where
  fits : string.length < dirnameLen

section Calls

variable {v v' v'' : Volume} {dir ino target : InodeNr} {own : Nat → Prop} {array array' : Nat → Word}
  {b slot : Nat} {e : Entry} {string name : List Word} {dev : DevId} {i : BufNr}

theorem Stays.refl : Stays v v dir := ⟨rfl, rfl, fun _ => rfl, fun _ => rfl, id, rfl⟩

theorem Stays.trans (first : Stays v v' dir) (second : Stays v' v'' dir) : Stays v v'' dir where
  mode := second.mode.trans first.mode
  device := second.device.trans first.device
  access who := (second.access who).trans (first.access who)
  number i := (second.number i).trans (first.number i)
  bounded := second.bounded ∘ first.bounded
  size := second.size.trans first.size

/-- The inodes are the same but for link counts. -/
def SameButLinks (v v' : Volume) : Prop :=
  ∀ i, ∃ n, v'.inodeTable i = { v.inodeTable i with iNlinks := n }

theorem sameButLinks_updateInode (count : Word → Word)
    (table : v'.inodeTable =
      (v.updateInode ino fun i => { i with iNlinks := count i.iNlinks }).inodeTable) :
    SameButLinks v v' := by
  intro i
  rw [table]
  by_cases here : i = ino
  · subst here
    exact ⟨count (v.inodeTable i).iNlinks, by rw [Volume.updateInode_same]⟩
  · exact ⟨(v.inodeTable i).iNlinks, by rw [Volume.updateInode_of_ne here]⟩

theorem Stays.links (dir : InodeNr) (same : SameButLinks v v') (sb : v'.rootSb = v.rootSb)
    (size : v'.cache.rootfsDiskSize = v.cache.rootfsDiskSize) :
    Stays v v' dir ∧ (v'.inodeTable dir).zones = (v.inodeTable dir).zones := by
  obtain ⟨n, here⟩ := same dir
  refine ⟨⟨?_, ?_, fun who => ?_, fun i => ?_, fun bounded => sb ▸ bounded, size⟩, ?_⟩
  · rw [here]
  · rw [here]
  · rw [here]
    rfl
  · obtain ⟨m, there⟩ := same i
    rw [there]
  · rw [here]
    rfl

section

variable (shows : ∀ k < blockSize, (v.cache.bufTable i).block k = array (b * blockSize + k))
include shows

theorem entryAt_free (whole : slot < wholeSlots) :
    dName v i slot 0 = 0#32 ↔ (entryAt array b slot).name = [] := by
  rw [entryAt_shows shows whole, show nameMax = 31 + 1 from rfl, nameWithin_succ]
  split_ifs with ended
  · exact iff_of_true ended rfl
  · exact iff_of_false ended id

theorem find_free (free : ∃ slot < wholeSlots, (entryAt array b slot).name = []) :
    ∃ slot < wholeSlots, ((List.range dirSlots).find? fun slot => dName v i slot 0 = 0#32) = some slot ∧
      (entryAt array b slot).name = [] := by
  obtain ⟨slot, whole, free⟩ := free
  have split : List.range dirSlots = List.range wholeSlots ++ [wholeSlots] := rfl
  rw [split, find?_append]
  cases found : (List.range wholeSlots).find? fun slot => decide (dName v i slot 0 = 0#32) with
  | none =>
    have absent := List.find?_eq_none.mp found slot (mem_range.mpr whole)
    exact absurd ((entryAt_free shows whole).mpr free) (by simpa using absent)
  | some first =>
    have inside := mem_range.mp (mem_of_find?_eq_some found)
    exact ⟨first, inside, rfl, (entryAt_free shows inside).mp (by simpa using find?_some found)⟩

theorem find_entry (proper : ComponentName name) (num : Int) :
    ((List.range dirSlots).find? fun slot =>
        dIno v i slot = num && char32Strcmp (dName v i slot) name = 0#32) =
      (List.range wholeSlots).find? fun slot =>
        (entryAt array b slot).ino = num && (entryAt array b slot).name = name := by
  refine find_whole ?_ fun slot whole => ?_
  · rw [decide_eq_false (strcmp_overhang proper), Bool.and_false]
  · rw [decide_eq_decide.mpr (strcmp_entryAt shows proper whole),
      show dIno v i slot = _ from (congrArg Entry.ino (entryAt_shows shows whole)).symm]

end

/-- What a call has done to a directory: it has these names, and the blocks of other files stay. -/
structure Names (v : Volume) (dir : InodeNr) (own : Nat → Prop) (array : Nat → Word)
    (names : List Word → Option Int) (v' : Volume) : Prop where
  directory : ∃ array', NameDir v' dir own array' ∧
    ∀ b, own b → (∀ zone ∈ (v'.inodeTable dir).zones, zone ≠ 0#32 → zone.toNat ≠ b) →
      ∀ k < blockSize, array' (b * blockSize + k) = array (b * blockSize + k)
  names : ∀ name ≠ [], dirNames v' dir name = names name
  stays : Stays v v' dir

/-- One entry has been written, and link counts may have changed. -/
structure SlotWritten (own : Nat → Prop) (array : Nat → Word) (b slot : Nat) (e : Entry)
    (v v' : Volume) :
    Prop where
  entry : ∃ array', EntryChanged array b slot e array' ∧ Idle (settled own array') v'.cache
  links : SameButLinks v v'
  sb : v'.rootSb = v.rootSb
  size : v'.cache.rootfsDiskSize = v.cache.rootfsDiskSize

theorem growZone_there {k : Nat} (used : (v.inodeTable dir).iZone k ≠ 0#32) :
    growZone dir k v = some ((v.inodeTable dir).iZone k, v) := by
  rw [growZone, bind_run readIno_run, if_pos used]
  rfl

theorem range_nrTzones : List.range nrTzones = 0 :: [1, 2, 3, 4, 5, 6, 7] := rfl

theorem mem_zones {k : Nat} (inside : k < nrTzones) :
    (v.inodeTable dir).iZone k ∈ (v.inodeTable dir).zones :=
  mem_map_of_mem (mem_range.mpr inside)

section

variable (held : Held (Fs.settled own array) v.cache i b) (positive : 1 ≤ b) (mine : own b)
  (whole : slot < wholeSlots)
include held positive mine whole

theorem fillSlot_run (proper : EntryName string) (device : (v.inodeTable ino).iDev = some dev)
    (range : (BitVec.ofInt 32 (v.inodeTable ino).iNum).toInt = (v.inodeTable ino).iNum) :
    ∃ v', fillSlot ino string i slot v = some (ok, v') ∧
      SlotWritten own array b slot ⟨string, (v.inodeTable ino).iNum⟩ v v' := by
  have plain (c : Word) (inName : c ∈ string) : c ≠ 0#32 := (proper.plain c inName).1
  have shows := held.shows positive mine
  obtain ⟨c', put, idle, size⟩ := rewriteBlock_settled
    (v := v.updateInode ino fun i => { i with iNlinks := i.iNlinks + 1 }) held positive
    (filled (v.inodeTable ino) dev string slot)
  refine ⟨{ v.updateInode ino fun i => { i with iNlinks := i.iNlinks + 1 } with cache := c' }, ?_,
    ⟨_, entryChanged_filled dev shows whole plain proper.fits range, idle⟩,
    sameButLinks_updateInode (· + 1) rfl, rfl, size⟩
  rw [fillSlot, bind_run readIno_run, device, show Prog.ofOption (some dev) = pure dev from rfl,
    pure_bind, if_neg (Nat.not_le.mpr whole), bind_run changeBlock_run,
    bind_run updateInode_run]
  exact bind_run put

theorem clearSlot_run (target : InodeNr) :
    ∃ v', clearSlot target i slot v = some (ok, v') ∧ SlotWritten own array b slot ⟨[], 0⟩ v v' := by
  have shows := held.shows positive mine
  obtain ⟨c', put, idle, size⟩ := rewriteBlock_settled held positive fun words =>
    update (update words (direntSize * slot + 2) 0#32) (direntSize * slot) 0#32
  refine ⟨{ v with cache := c' }.updateInode target fun i => { i with iNlinks := i.iNlinks - 1 }, ?_,
    ⟨_, entryChanged_cleared shows whole, idle⟩, sameButLinks_updateInode (· - 1) rfl, rfl, size⟩
  rw [clearSlot, if_neg (Nat.not_le.mpr whole), bind_run changeBlock_run, bind_run put]
  rfl

end

theorem places_zero (zones : List Word) : places (0#32 :: zones) = places zones := by
  simp [places]

theorem places_cons {zone : Word} (used : zone ≠ 0#32) (zones : List Word) :
    places (zone :: zones) = (List.range wholeSlots).map (Prod.mk zone.toNat) ++ places zones := by
  simp [places, used]

/-- **The loop of `remove_inode_from_dir`** clears the entry with the name and the number, if there is
one, and keeps to the blocks if it comes to that entry in time. -/
theorem removeZones_run (target : InodeNr) (proper : ComponentName name) {zones : List Word}
    (idle : Idle (Fs.settled own array) v.cache)
    (inside : ∀ zone ∈ zones, zone ≠ 0#32 → own zone.toNat ∧ Inside v.cache zone.toNat) :
    ((∃ p ∈ places zones, nameAt array p = name ∧ inoAt array p = (v.inodeTable target).iNum ∧
      ∃ v', removeZones (some .rootfs) target name zones v = some (ok, v') ∧
        SlotWritten own array p.1 p.2 ⟨[], 0⟩ v v') ∨
    (∀ p ∈ places zones, nameAt array p = name → inoAt array p ≠ (v.inodeTable target).iNum) ∧
      ∃ c', removeZones (some .rootfs) target name zones v = some (enoent, { v with cache := c' }) ∧
        Idle (Fs.settled own array) c' ∧ c'.rootfsDiskSize = v.cache.rootfsDiskSize) ∧
    ((∀ read ∈ (removeZonesLog (some .rootfs) target name zones).log v, read.Within) ↔
      RemoveFits array (v.inodeTable target).iNum name zones) := by
  induction zones generalizing v with
  | nil =>
    exact ⟨.inr ⟨fun p member => absurd member not_mem_nil, v.cache, rfl, idle, rfl⟩, fun _ => trivial,
      fun _ read member => absurd member not_mem_nil⟩
  | cons zone zones ih =>
    have later : ∀ z ∈ zones, z ≠ 0#32 → own z.toNat ∧ Inside v.cache z.toNat := fun z member =>
      inside z (mem_cons_of_mem _ member)
    rw [removeZones, removeZonesLog, RemoveFits]
    by_cases zero : zone = 0#32
    · rw [if_pos zero, if_pos zero, if_pos zero, zero, places_zero]
      exact ih idle later
    obtain ⟨mine, here⟩ := inside zone mem_cons_self zero
    obtain ⟨i, c₁, got, held, took⟩ := derefBlock_idle idle here
    have shows := held.shows here.1 mine
    have found := find_entry (v := { v with cache := c₁ }) shows proper (v.inodeTable target).iNum
    rw [if_neg zero, if_neg zero, if_neg zero, bind_run got, get_bind, places_cons zero,
      Logged.lift_log_run got, Logged.lift_log_run rfl]
    dsimp only
    rw [Logged.write_bind_log, found]
    cases slot? : (List.range wholeSlots).find? fun slot =>
        decide ((entryAt array zone.toNat slot).ino = (v.inodeTable target).iNum) &&
          decide ((entryAt array zone.toNat slot).name = name) with
    | some slot =>
      have whole := mem_range.mp (mem_of_find?_eq_some slot?)
      have both := find?_some slot?
      rw [Bool.and_eq_true, decide_eq_true_iff, decide_eq_true_iff] at both
      rw [slot?] at found
      obtain ⟨v', cleared, written⟩ :=
        clearSlot_run (v := { v with cache := c₁ }) held here.1 mine whole target
      refine ⟨.inl ⟨(zone.toNat, slot), mem_append_left _ (mem_map_of_mem (mem_range.mpr whole)),
        both.2, both.1, v', cleared, written.entry, written.links, written.sb,
        written.size.trans took.size⟩, fun _ => .inl ⟨slot, whole, by rw [← both.1, ← both.2]⟩,
        fun _ read member => ?_⟩
      rcases mem_append.mp member with reads | rest
      · obtain ⟨other, visit, here⟩ := mem_flatMap.mp reads
        have before := visited_whole ⟨slot, whole, find?_some found⟩ other visit
        exact removeReads_within before proper.short here
      · exact absurd rest not_mem_nil
    | none =>
      obtain ⟨c₂, put, idle₂, same⟩ := putBlock_held (v := { v with cache := c₁ }) held
      have size : c₂.rootfsDiskSize = v.cache.rootfsDiskSize := same.size.trans took.size
      have absent : ¬ ∃ slot < wholeSlots,
          entryAt array zone.toNat slot = ⟨name, (v.inodeTable target).iNum⟩ := by
        rintro ⟨slot, whole, entry⟩
        have differs := List.find?_eq_none.mp slot? slot (mem_range.mpr whole)
        rw [entry] at differs
        exact differs (by simp)
      obtain ⟨removed, rest⟩ := ih (v := { v with cache := c₂ }) idle₂
        fun z member used => (later z member used).imp_right (inside_of_size size)
      dsimp only
      rw [bind_run put, Logged.lift_log_run put]
      constructor
      · rcases removed with ⟨p, member, named, number, v', removed, written⟩ |
          ⟨others, c', removed, idle', size'⟩
        · exact .inl ⟨p, mem_append_right _ member, named, number, v', removed, written.entry,
            written.links, written.sb, written.size.trans size⟩
        · refine .inr ⟨fun p member named number => ?_, c', removed, idle', size'.trans size⟩
          rcases mem_append.mp member with first | rest
          · obtain ⟨slot, inRange, rfl⟩ := mem_map.mp first
            exact absent ⟨slot, mem_range.mp inRange, by rw [← named, ← number]; rfl⟩
          · exact others p rest named number
      · have overhang : dIno { v with cache := c₁ } i wholeSlots =
            (array (zone.toNat * blockSize + 1023)).toInt := by
          rw [dIno, bufWord_block (by decide)]
          exact congrArg BitVec.toInt (shows _ (by decide))
        rw [slot?] at found
        rw [visited_none fun slot whole => Bool.eq_false_iff.mpr (List.find?_eq_none.mp found slot
          (mem_range.mpr (Nat.lt_succ_of_lt whole))), or_iff_right absent, ← overhang,
            forall_mem_append,
          rest, ← removeReads_overhang]
        refine and_congr_left fun _ => ⟨fun reads read member => ?_, fun last read member => ?_⟩
        · exact reads read (mem_flatMap.mpr ⟨wholeSlots, mem_overhang, member⟩)
        · obtain ⟨slot, inRange, here⟩ := mem_flatMap.mp member
          by_cases whole : slot < wholeSlots
          · exact removeReads_within whole proper.short here
          · have same : slot = wholeSlots := by
              have inside := mem_range.mp inRange
              unfold dirSlots wholeSlots at *
              omega
            exact last read (same ▸ here)

theorem ofNat_block {n : Nat} (small : n + 1 < 50) :
    (BitVec.ofNat 32 (n + 1)).toNat = n + 1 ∧ BitVec.ofNat 32 (n + 1) ≠ 0#32 := by
  have toNat : (BitVec.ofNat 32 (n + 1)).toNat = n + 1 := by
    rw [BitVec.toNat_ofNat]
    omega
  refine ⟨toNat, fun zero => ?_⟩
  rw [zero] at toNat
  exact absurd toNat (Nat.succ_ne_zero n).symm

/-- `growZone` on an empty zone, when the block has been taken. -/
theorem growZone_taken {c : Cache} {ret : Int} {vol : Volume}
    (device : (v.inodeTable dir).iDev = some .rootfs)
    (empty : (v.inodeTable dir).iZone 0 = 0#32)
    (taken : allocBlock dir (some .rootfs) v = some (ret, { vol with cache := c })) :
    growZone dir 0 v = some (BitVec.ofInt 32 ret, { vol with cache := c }.updateInode dir fun d =>
      { d with iZone := update d.iZone 0 (BitVec.ofInt 32 ret) }) := by
  rw [growZone, bind_run readIno_run, if_neg (not_not.mpr empty), device, bind_run taken]
  rfl

theorem addZones_grown (ino : InodeNr) (string : List Word) (rest : List Nat) {bnr : Word}
    (grown : growZone dir 0 v = some (bnr, v')) (there : (v'.inodeTable dir).iZone 0 = bnr)
    (used : bnr ≠ 0#32) :
    addZones dir ino string (0 :: rest) v = addZones dir ino string (0 :: rest) v' ∧
    (addZonesLog dir ino string (0 :: rest)).log v =
      (addZonesLog dir ino string (0 :: rest)).log v' := by
  have again := growZone_there (there ▸ used)
  rw [addZones, addZonesLog, bind_run grown, ← there, bind_run again,
    Logged.lift_log_run grown, ← there, Logged.lift_log_run again]
  exact ⟨rfl, rfl⟩

theorem firstRead_overhang : ¬ (⟨i, direntSize * wholeSlots + 2, 1⟩ : EntryRead).Within := by
  show ¬ direntSize * wholeSlots + 2 + 1 ≤ blockSize
  decide

section

variable (directory : NameDir v dir own array)
include directory

theorem NameDir.changedAt
    (member : (b, slot) ∈ places (v.inodeTable dir).zones)
    (changed : EntryChanged array b slot e array') :
    ChangedAt (places (v.inodeTable dir).zones) (b, slot) (nameAt array) (inoAt array) (nameAt array')
      (inoAt array') := by
  have same : ∀ p ∈ places (v.inodeTable dir).zones, p ≠ (b, slot) →
      entryAt array' p.1 p.2 = entryAt array p.1 p.2 := by
    rintro ⟨b', slot'⟩ there other
    have whole := (mem_places.mp there).2
    have ended := directory.ended _ there
    unfold nameAt at ended
    by_cases here : b' = b
    · subst here
      exact changed.block slot' whole (fun same => other (same ▸ rfl)) ended
    · exact entryAt_congr (changed.others b' here) whole
  refine ⟨member, fun p there other => ?_, fun p there other => ?_⟩
  · exact congrArg Entry.name (same p there other)
  · exact congrArg Entry.ino (same p there other)

theorem NameDir.kept (stays : Stays v v' dir)
    (zones : ∀ zone ∈ (v'.inodeTable dir).zones, zone ≠ 0#32 → own zone.toNat ∧
      Inside v.cache zone.toNat)
    (idle : Idle (Fs.settled own array') v'.cache)
    (names : Distinct [] (places (v'.inodeTable dir).zones) (nameAt array'))
    (ended : ∀ p ∈ places (v'.inodeTable dir).zones, (nameAt array' p).length < dirnameLen) :
    NameDir v' dir own array' where
  isDir := (congrArg sIsdir stays.mode).trans directory.isDir
  device := stays.device.trans directory.device
  bounded := stays.bounded directory.bounded
  size := stays.size.trans directory.size
  idle := idle
  settled := directory.settled
  zones zone member used := (zones zone member used).imp_right (inside_of_size stays.size)
  names := names
  ended := ended

theorem NameDir.ended_changed
    (member : (b, slot) ∈ places (v.inodeTable dir).zones)
    (changed : EntryChanged array b slot e array')
    (short : e.name.length < dirnameLen) :
    ∀ p ∈ places (v.inodeTable dir).zones, (nameAt array' p).length < dirnameLen := by
  intro p there
  by_cases here : p = (b, slot)
  · have name : nameAt array' p = e.name := by
      rw [here]
      exact congrArg Entry.name changed.entry
    rw [name]
    exact short
  · rw [(directory.changedAt member changed).key p there here]
    exact directory.ended p there

theorem NameDir.written
    (member : (b, slot) ∈ places (v.inodeTable dir).zones)
    (written : SlotWritten own array b slot e v v')
    (short : e.name.length < dirnameLen) {names : List Word → Option Int}
    (found : ∀ array', EntryChanged array b slot e array' → ∀ name ≠ [],
      Distinct [] (places (v.inodeTable dir).zones) (nameAt array') ∧
        tableFind (places (v.inodeTable dir).zones) (nameAt array') (inoAt array') name = names name) :
    Names v dir own array names v' := by
  obtain ⟨stays, zones⟩ := Stays.links dir written.links written.sb written.size
  obtain ⟨array', changed, idle⟩ := written.entry
  replace found := found array' changed
  have distinct : Distinct [] (places (v.inodeTable dir).zones) (nameAt array') :=
    (found dot1 (by decide)).1
  have after : NameDir v' dir own array' :=
    directory.kept stays (zones ▸ directory.zones) idle (zones ▸ distinct)
      (zones ▸ directory.ended_changed member changed short)
  refine ⟨⟨array', after, fun b' mine other k inside => ?_⟩, fun name proper => ?_, stays⟩
  · refine changed.others b' ?_ k inside
    rintro rfl
    obtain ⟨⟨zone, member, used, same⟩, -⟩ := mem_places.mp member
    rw [zones] at other
    exact other zone member used same
  · rw [after.dirNames_eq, zones]
    exact (found name proper).2

theorem NameDir.same {c : Cache}
    (idle : Idle (Fs.settled own array) c) (size : c.rootfsDiskSize = v.cache.rootfsDiskSize) :
    Names v dir own array (dirNames v dir) { v with cache := c } := by
  have stays : Stays v { v with cache := c } dir := ⟨rfl, rfl, fun _ => rfl, fun _ => rfl, id, size⟩
  have after : NameDir { v with cache := c } dir own array :=
    directory.kept stays directory.zones idle directory.names directory.ended
  refine ⟨⟨array, after, fun b _ _ k _ => rfl⟩, fun name _ => ?_, stays⟩
  rw [after.dirNames_eq, directory.dirNames_eq]

/-- **A new name**, when the first block has a free entry. -/
theorem NameDir.add (proper : EntryName string)
    (fresh : dirNames v dir string = none) (used : (v.inodeTable dir).iZone 0 ≠ 0#32)
    (free : ∃ slot < wholeSlots, (entryAt array ((v.inodeTable dir).iZone 0).toNat slot).name = [])
    (device : (v.inodeTable ino).iDev = some dev)
    (range : (BitVec.ofInt 32 (v.inodeTable ino).iNum).toInt = (v.inodeTable ino).iNum) :
    ∃ v', addZones dir ino string (List.range nrTzones) v = some (ok, v') ∧
      Names v dir own array (update (dirNames v dir) string (some (v.inodeTable ino).iNum)) v' := by
  obtain ⟨mine, inside⟩ := directory.zones _ (mem_zones (by decide)) used
  obtain ⟨i, c₁, got, held, took⟩ := derefBlock_idle directory.idle inside
  have shows := held.shows inside.1 mine
  obtain ⟨slot, whole, found, blank⟩ := find_free (v := { v with cache := c₁ }) shows free
  have member : (((v.inodeTable dir).iZone 0).toNat, slot) ∈ places (v.inodeTable dir).zones :=
    mem_places.mpr ⟨⟨_, mem_zones (by decide), used, rfl⟩, whole⟩
  obtain ⟨v', filled, written⟩ :=
    fillSlot_run (v := { v with cache := c₁ }) held inside.1 mine whole proper device range
  refine ⟨v', ?_, directory.written member ⟨written.entry, written.links, written.sb,
    written.size.trans took.size⟩ proper.fits fun array' changed name nonempty => ?_⟩
  · rw [range_nrTzones, addZones, bind_run (growZone_there used), bind_run readIno_run,
      directory.device,
      bind_run got, get_bind, found]
    exact filled
  · have newName : nameAt array' (((v.inodeTable dir).iZone 0).toNat, slot) = string :=
      congrArg Entry.name changed.entry
    have newIno : inoAt array' (((v.inodeTable dir).iZone 0).toNat, slot) = (v.inodeTable ino).iNum :=
      congrArg Entry.ino changed.entry
    have inserted := directory.names.find_insert (directory.changedAt member changed) blank
      (by rw [newName, ← directory.dirNames_eq]; exact fresh) nonempty
    rw [newName, newIno, ← directory.dirNames_eq] at inserted
    exact ⟨inserted.1, inserted.2.trans (update_apply ..).symm⟩

/-- **A name is removed**, if it is the name of the inode. -/
theorem NameDir.remove (proper : ComponentName name) :
    ∃ v', removeZones (some .rootfs) target name (v.inodeTable dir).zones v =
        some (if dirNames v dir name = some (v.inodeTable target).iNum then ok else enoent, v') ∧
      Names v dir own array (if dirNames v dir name = some (v.inodeTable target).iNum then
        update (dirNames v dir) name none else dirNames v dir) v' := by
  have there : dirNames v dir name = some (v.inodeTable target).iNum ↔
      ∃ p ∈ places (v.inodeTable dir).zones, nameAt array p = name ∧
        inoAt array p = (v.inodeTable target).iNum := by
    rw [directory.dirNames_eq]
    exact directory.names.find_eq_some proper.nonempty
  rcases (removeZones_run target proper directory.idle directory.zones).1 with
    ⟨⟨b, slot⟩, member, named, number, v', removed, written⟩ | ⟨absent, c', removed, idle, size⟩
  · rw [if_pos (there.mpr ⟨_, member, named, number⟩), if_pos (there.mpr ⟨_, member, named, number⟩)]
    refine ⟨v', removed,
      directory.written member written (by decide) fun array' changed other nonempty => ?_⟩
    have erased := directory.names.find_erase (directory.changedAt member changed)
      (congrArg Entry.name changed.entry) nonempty
    rw [named, ← directory.dirNames_eq] at erased
    exact ⟨erased.1, erased.2.trans (update_apply ..).symm⟩
  · have none : ¬ dirNames v dir name = some (v.inodeTable target).iNum := fun found => by
      obtain ⟨p, member, named, number⟩ := there.mp found
      exact absent p member named number
    rw [if_neg none, if_neg none]
    exact ⟨_, removed, directory.same idle size⟩

theorem NameDir.onDisk (positive : 1 ≤ b) (small : b < 50) :
    Inside v.cache b := by
  refine ⟨positive, ?_⟩
  rw [directory.size]
  unfold blockSize
  show _ ≤ 51200
  omega

theorem NameDir.grown (empty : (v.inodeTable dir).iZone 0 = 0#32)
    {bnr : Word} (used : bnr ≠ 0#32) (mine : own bnr.toNat) (inside : Inside v.cache bnr.toNat)
    (free : ∀ slot < wholeSlots, (entryAt array bnr.toNat slot).name = []) (stays : Stays v v' dir)
    (idle : Idle (Fs.settled own array) v'.cache)
    (zones : (v'.inodeTable dir).iZone = update (v.inodeTable dir).iZone 0 bnr) :
    NameDir v' dir own array ∧ ∀ name ≠ [], dirNames v' dir name = dirNames v dir name := by
  have rest : ∃ zones, (v.inodeTable dir).zones = 0#32 :: zones ∧
    (v'.inodeTable dir).zones = bnr :: zones := by
    refine ⟨[1, 2, 3, 4, 5, 6, 7].map (v.inodeTable dir).iZone, ?_, ?_⟩
    · rw [← empty]
      rfl
    · rw [Inode.zones, zones]
      rfl
  obtain ⟨zones, before, after⟩ := rest
  have all : places (v'.inodeTable dir).zones =
      (List.range wholeSlots).map (Prod.mk bnr.toNat) ++ places (v.inodeTable dir).zones := by
    rw [after, before, places_zero, places_cons used]
  have blank : ∀ p ∈ (List.range wholeSlots).map (Prod.mk bnr.toNat), nameAt array p = [] := by
    intro p member
    obtain ⟨slot, inRange, rfl⟩ := mem_map.mp member
    exact free slot (mem_range.mp inRange)
  have old : ∀ p ∈ places (v'.inodeTable dir).zones, nameAt array p ≠ [] →
      p ∈ places (v.inodeTable dir).zones := by
    intro p member named
    rw [all] at member
    exact (mem_append.mp member).resolve_left fun first => named (blank p first)
  have directory' : NameDir v' dir own array := by
    refine directory.kept stays (fun zone member nonzero => ?_) idle
      (fun p here q there same named => ?_) fun p member => ?_
    · rw [after] at member
      rcases mem_cons.mp member with rfl | member
      · exact ⟨mine, inside⟩
      · exact directory.zones zone (before ▸ mem_cons_of_mem _ member) nonzero
    · exact directory.names p (old p here named) q (old q there (same ▸ named)) same named
    · by_cases named : nameAt array p = []
      · rw [named]
        decide
      · exact directory.ended p (old p member named)
  refine ⟨directory', fun name nonempty => ?_⟩
  rw [directory'.dirNames_eq, directory.dirNames_eq]
  refine Option.ext fun num => ?_
  rw [directory'.names.find_eq_some nonempty, directory.names.find_eq_some nonempty]
  constructor
  · rintro ⟨p, member, named, number⟩
    exact ⟨p, old p member (named ▸ nonempty), named, number⟩
  · rintro ⟨p, member, named, number⟩
    exact ⟨p, all ▸ mem_append_right _ member, named, number⟩

/-- **A new first block.** -/
theorem NameDir.grow (empty : (v.inodeTable dir).iZone 0 = 0#32)
    {n : Nat} (taken : firstFree (shown v.cache mapBlock) = some (n + 1)) (mine : own (n + 1))
    (inside : n + 1 < 50) (free : ∀ slot < wholeSlots, (entryAt array (n + 1) slot).name = []) :
    ∃ v', growZone dir 0 v = some (BitVec.ofNat 32 (n + 1), v') ∧ NameDir v' dir own array ∧
      (v'.inodeTable dir).iZone 0 = BitVec.ofNat 32 (n + 1) ∧ Stays v v' dir ∧
      (∀ i, (v'.inodeTable i).iDev = (v.inodeTable i).iDev) ∧
      ∀ name ≠ [], dirNames v' dir name = dirNames v dir name := by
  obtain ⟨c', allocated, idle, size⟩ := allocBlock_run dir directory.idle directory.bounded
    (directory.onDisk (by decide) (by decide)) taken
  have number : BitVec.ofInt 32 (n + 1 : Int) = BitVec.ofNat 32 (n + 1) := BitVec.ofInt_ofNat 32 (n + 1)
  obtain ⟨toNat, used⟩ := ofNat_block inside
  have grew := growZone_taken directory.device empty allocated
  rw [number] at grew
  have here : ({ v.taken dir with cache := c' }.updateInode dir fun d => { d with
      iZone := update d.iZone 0 (BitVec.ofNat 32 (n + 1)) }).inodeTable dir =
      { v.inodeTable dir with
        iTotalSize := (v.inodeTable dir).iTotalSize + BitVec.ofNat 32 blockSize
        iZone := update (v.inodeTable dir).iZone 0 (BitVec.ofNat 32 (n + 1)) } := by
    rw [Volume.updateInode_same]
    dsimp only
    rw [Volume.taken, Volume.updateInode_same]
  have others (i : InodeNr) (apart : i ≠ dir) :
      ({ v.taken dir with cache := c' }.updateInode dir fun d =>
      { d with iZone := update d.iZone 0 (BitVec.ofNat 32 (n + 1)) }).inodeTable i =
      v.inodeTable i := by
    rw [Volume.updateInode_of_ne apart]
    dsimp only
    rw [Volume.taken, Volume.updateInode_of_ne apart]
  generalize after : ({ v.taken dir with cache := c' }.updateInode dir fun d => { d with
    iZone := update d.iZone 0 (BitVec.ofNat 32 (n + 1)) }) = v' at grew here others
  have cache : v'.cache = c' := by rw [← after]; rfl
  have bounded : Bounded v.rootSb → Bounded v'.rootSb := by
    rw [← after]
    exact fun bounded => ⟨bounded.blockmapnr, bounded.blockmapSize⟩
  have stays : Stays v v' dir := by
    refine ⟨by rw [here], by rw [here], fun who => by rw [here]; rfl,
      fun i => ?_, bounded, by rw [cache, size]⟩
    by_cases same : i = dir
    · rw [same, here]
    · rw [others i same]
  have settled : Idle (Fs.settled own array) v'.cache := by
    rw [cache]
    refine idle.mono fun b words may mine => ?_
    rw [update_of_ne (directory.settled b mine).2] at may
    exact may mine
  obtain ⟨directory', same⟩ := directory.grown empty used (toNat.symm ▸ mine)
    (toNat.symm ▸ directory.onDisk (Nat.succ_le_succ n.zero_le) inside) (toNat.symm ▸ free) stays
    settled (by rw [here])
  refine ⟨v', grew, directory', ?_, stays, fun i => ?_, same⟩
  · rw [here]
    dsimp only
    rw [update_self]
  · by_cases same : i = dir
    · rw [same, here]
    · rw [others i same]

/-- **What `add_inode_to_directory` reads as an entry**, when there is a first block. -/
theorem NameDir.addLog_within
    (used : (v.inodeTable dir).iZone 0 ≠ 0#32) :
    (∀ read ∈ (addZonesLog dir ino string (List.range nrTzones)).log v, read.Within) ↔
      ∃ slot < wholeSlots, (entryAt array ((v.inodeTable dir).iZone 0).toNat slot).name = [] := by
  obtain ⟨mine, inside⟩ := directory.zones _ (mem_zones (by decide)) used
  obtain ⟨i, c₁, got, held, took⟩ := derefBlock_idle directory.idle inside
  have shows := held.shows inside.1 mine
  have free (slot : Nat) (whole : slot < wholeSlots) : dName { v with cache := c₁ } i slot 0 = 0#32 ↔
      (entryAt array ((v.inodeTable dir).iZone 0).toNat slot).name = [] :=
    entryAt_free (v := { v with cache := c₁ }) shows whole
  rw [range_nrTzones, addZonesLog, Logged.lift_log_run (growZone_there used),
    Logged.lift_log_run readIno_run,
    directory.device, Logged.lift_log_run got, Logged.lift_log_run rfl, Logged.write_bind_log]
  constructor
  · intro reads
    by_contra full
    push Not at full
    rw [visited_none fun slot whole =>
      decide_eq_false fun zero => full slot whole ((free slot whole).mp zero)] at reads
    exact firstRead_overhang (reads _ (mem_append_left _ (mem_map_of_mem mem_overhang)))
  · intro room read member
    obtain ⟨slot, whole, found, -⟩ := find_free (v := { v with cache := c₁ }) shows room
    have holds := find?_some found
    rw [found] at member
    rcases mem_append.mp member with names | rest
    · obtain ⟨other, visit, rfl⟩ := mem_map.mp names
      have before := visited_whole (p := fun slot =>
        decide (dName { v with cache := c₁ } i slot 0 = 0#32))
        ⟨slot, whole, holds⟩ other visit
      show direntSize * other + 2 + 1 ≤ blockSize
      unfold wholeSlots direntSize blockSize at *
      omega
    · exact absurd rest not_mem_nil

end

end Calls

/-! ### Calls that keep to the blocks -/

section Within

variable {v : Volume} {dir ino : InodeNr} {own : Nat → Prop} {array : Nat → Word}
  {string name : List Word}

/-- The first block of a directory has the name. -/
def FirstHas (array : Nat → Word) (name : List Word) : List Word → Prop
  | [] => True
  | zone :: zones =>
    if zone = 0#32 then FirstHas array name zones
    else ∃ slot < wholeSlots, (entryAt array zone.toNat slot).name = name

/-- **What `advance` reads as an entry.** -/
theorem lookupZonesLog_within (proper : ComponentName name) {zones : List Word}
    (idle : Idle (settled own array) v.cache)
    (inside : ∀ zone ∈ zones, zone ≠ 0#32 → own zone.toNat ∧ Inside v.cache zone.toNat) :
    (∀ read ∈ (lookupZonesLog (some .rootfs) name zones).log v, read.Within) ↔
      FirstHas array name zones := by
  induction zones with
  | nil => exact ⟨fun _ => trivial, fun _ read member => absurd member not_mem_nil⟩
  | cons zone zones ih =>
    rw [lookupZonesLog, FirstHas]
    by_cases zero : zone = 0#32
    · rw [if_pos zero, if_pos zero]
      exact ih fun z member => inside z (mem_cons_of_mem _ member)
    rw [if_neg zero, if_neg zero]
    obtain ⟨mine, here⟩ := inside zone mem_cons_self zero
    obtain ⟨i, c₁, got, held, -⟩ := getBlock_idle idle here
    have shows := held.shows here.1 mine
    have named (slot : Nat) (whole : slot < wholeSlots) :
        char32Strcmp (dName { v with cache := c₁ } i slot) name = 0#32 ↔
          (entryAt array zone.toNat slot).name = name :=
      strcmp_entryAt (v := { v with cache := c₁ }) shows proper whole
    have found := find_slot (v := { v with cache := c₁ }) shows proper
    rw [Logged.lift_log_run got]
    dsimp only
    rw [Logged.lift_log_run rfl, Logged.write_bind_log, found]
    cases slot? : (List.range wholeSlots).find? fun slot =>
        decide ((entryAt array zone.toNat slot).name = name) with
    | none =>
      have absent (slot : Nat) (whole : slot < wholeSlots) :
          (entryAt array zone.toNat slot).name ≠ name := by
        simpa using List.find?_eq_none.mp slot? slot (mem_range.mpr whole)
      refine ⟨fun reads => ?_, fun ⟨slot, whole, same⟩ => absurd same (absent slot whole)⟩
      rw [visited_none fun slot whole =>
        decide_eq_false fun same => absent slot whole ((named slot whole).mp same)] at reads
      exact absurd (reads _ (mem_append_left _ (mem_map_of_mem mem_overhang))) nameRead_overhang
    | some slot =>
      have whole := mem_range.mp (mem_of_find?_eq_some slot?)
      have same : (entryAt array zone.toNat slot).name = name := by simpa using find?_some slot?
      refine ⟨fun _ => ⟨slot, whole, same⟩, fun _ read member => ?_⟩
      obtain ⟨c₂, put, -, -⟩ := putBlock_held (v := { v with cache := c₁ }) held
      dsimp only at member
      rw [Logged.write_bind_log, Logged.lift_log_run put, Logged.pure_log, append_nil] at member
      rcases mem_append.mp member with names | number
      · obtain ⟨other, visit, rfl⟩ := mem_map.mp names
        have before := visited_whole (p := fun slot =>
          decide (char32Strcmp (dName { v with cache := c₁ } i slot) name = 0#32))
          ⟨slot, whole, decide_eq_true ((named slot whole).mpr same)⟩ other visit
        exact nameRead_within before proper.short
      · rw [mem_singleton.mp number]
        exact inoRead_within (Nat.lt_succ_of_lt whole)

end Within

/-! ### When a call is right -/

section

variable (v : Volume)

/-- There is a free entry in the first block of a directory; if it has none, the next block that is
taken is on the disk, settled, and its entries are free. -/
def HasRoom (dir : InodeNr) (own : Nat → Prop) : Prop :=
  if (v.inodeTable dir).iZone 0 = 0#32 then
    ∃ n, firstFree (shown v.cache mapBlock) = some (n + 1) ∧ n + 1 < 50 ∧ own (n + 1) ∧
      ∀ slot < wholeSlots, (entryAt (shownWord v.cache) (n + 1) slot).name = []
  else ∃ slot < wholeSlots,
    (entryAt (shownWord v.cache) ((v.inodeTable dir).iZone 0).toNat slot).name = []

/-- The next block that is taken, if it is on the disk, is settled, and its entries are free. -/
def Spare (own : Nat → Prop) : Prop :=
  ∀ n, firstFree (shown v.cache mapBlock) = some (n + 1) → n + 1 < 50 →
    own (n + 1) ∧ ∀ slot < wholeSlots, (entryAt (shownWord v.cache) (n + 1) slot).name = []

/-- What a call returns. -/
def DirCall.answer (dir : InodeNr) : DirCall → Int
  | .add who _ _ => if hasFileAccess who (v.inodeTable dir) wOk then ok else eacces
  | .remove who target name =>
    if hasFileAccess who (v.inodeTable dir) wOk then
      if dirNames v dir name = some (v.inodeTable target).iNum then ok else enoent
    else eacces
  | .look name => (dirNames v dir name).getD err

/-- What a call does to the finite map. -/
def DirCall.effect (dir : InodeNr) (names : List Word → Option Int) :
    DirCall → List Word → Option Int
  | .add who ino string =>
    if hasFileAccess who (v.inodeTable dir) wOk then
      update names string (some (v.inodeTable ino).iNum)
    else names
  | .remove who target name =>
    if hasFileAccess who (v.inodeTable dir) wOk ∧ names name = some (v.inodeTable target).iNum then
      update names name none
    else names
  | .look _ => names

/-- A name that is added fits into an entry and is not there yet; the inode has a number and a
device. -/
def DirCall.Proper (dir : InodeNr) : DirCall → Prop
  | .add _ ino string => EntryName string ∧ dirNames v dir string = none ∧
      (∃ dev, (v.inodeTable ino).iDev = some dev) ∧
      (BitVec.ofInt 32 (v.inodeTable ino).iNum).toInt = (v.inodeTable ino).iNum
  | .remove _ _ name => ComponentName name
  | .look name => ComponentName name

/-- The call acts on the directory as on a finite map: afterwards `advance` returns what the map says.
Other files keep their words, and only words of the directory's blocks are read as an entry. -/
def DirCall.Right (dir : InodeNr) (own : Nat → Prop) (call : DirCall) : Prop :=
  ∃ v', call.serve dir v = some (call.answer v dir, v') ∧
    (∀ name, ComponentName name → ∃ v'',
      advance dir name v' = some ((call.effect v dir (dirNames v dir) name).getD err, v'')) ∧
    (∀ b, own b → (∀ zone ∈ (v'.inodeTable dir).zones, zone ≠ 0#32 → zone.toNat ≠ b) →
      shown v'.cache b = shown v.cache b) ∧
    ∀ read ∈ (call.traced dir).log v, read.Within

/-- The call finds what it looks for before it comes to the entry that overhangs a block. -/
def DirCall.Fits (dir : InodeNr) (own : Nat → Prop) : DirCall → Prop
  | .add who _ _ => hasFileAccess who (v.inodeTable dir) wOk = true → HasRoom v dir own
  | .remove who target name => hasFileAccess who (v.inodeTable dir) wOk = true →
      RemoveFits (shownWord v.cache) (v.inodeTable target).iNum name (v.inodeTable dir).zones
  | .look name => FirstHas (shownWord v.cache) name (v.inodeTable dir).zones

end

section Right

variable {v v' : Volume} {dir ino target : InodeNr} {own : Nat → Prop} {array : Nat → Word}
  {string name : List Word} {who : Owner} {dev : DevId} {names : List Word → Option Int}

theorem Names.shows (after : Names v dir own array names v') (proper : ComponentName name) :
    ∃ v'', advance dir name v' = some ((names name).getD err, v'') := by
  obtain ⟨array', directory, -⟩ := after.directory
  obtain ⟨c', looked, -, -⟩ := directory.look proper
  rw [after.names name proper.nonempty] at looked
  exact ⟨_, looked⟩

theorem Names.others (directory : NameDir v dir own array) (after : Names v dir own array names v')
    {b : Nat}
    (mine : own b) (other : ∀ zone ∈ (v'.inodeTable dir).zones, zone ≠ 0#32 → zone.toNat ≠ b) :
    shown v'.cache b = shown v.cache b := by
  obtain ⟨array', directory', same⟩ := after.directory
  have positive := (directory.settled b mine).1
  rw [directory'.idle.shown_settled mine positive, directory.idle.shown_settled mine positive]
  exact slice_congr fun k inside => same b mine other k inside

/-- **Room in the first block** is enough. -/
theorem NameDir.add_room (directory : NameDir v dir own (shownWord v.cache)) (proper : EntryName string)
    (fresh : dirNames v dir string = none) (device : (v.inodeTable ino).iDev = some dev)
    (range : (BitVec.ofInt 32 (v.inodeTable ino).iNum).toInt = (v.inodeTable ino).iNum)
    (room : HasRoom v dir own) :
    (∃ v', addZones dir ino string (List.range nrTzones) v = some (ok, v') ∧
      Names v dir own (shownWord v.cache)
        (update (dirNames v dir) string (some (v.inodeTable ino).iNum)) v') ∧
    ∀ read ∈ (addZonesLog dir ino string (List.range nrTzones)).log v, read.Within := by
  unfold HasRoom at room
  by_cases empty : (v.inodeTable dir).iZone 0 = 0#32
  · rw [if_pos empty] at room
    obtain ⟨n, free, small, mine, blank⟩ := room
    obtain ⟨v₁, grown, directory₁, there, stays, devices, same⟩ :=
      directory.grow empty free mine small blank
    obtain ⟨toNat, used⟩ := ofNat_block small
    have used₁ : (v₁.inodeTable dir).iZone 0 ≠ 0#32 := there ▸ used
    have room₁ : ∃ slot < wholeSlots,
        (entryAt (shownWord v.cache) ((v₁.inodeTable dir).iZone 0).toNat slot).name = [] := by
      refine ⟨0, by decide, ?_⟩
      rw [there, toNat]
      exact blank 0 (by decide)
    obtain ⟨sameRun, sameLog⟩ := addZones_grown ino string [1, 2, 3, 4, 5, 6, 7] grown there used
    refine ⟨?_, ?_⟩
    · obtain ⟨v', added, after⟩ :=
        directory₁.add proper ((same string proper.nonempty).trans fresh) used₁ room₁
        ((devices ino).trans device) (by rw [stays.number]; exact range)
      refine ⟨v', ?_, after.directory, fun name nonempty => ?_, stays.trans after.stays⟩
      · rw [range_nrTzones, sameRun, ← range_nrTzones]
        exact added
      · rw [after.names name nonempty, stays.number, update_apply, update_apply, same name nonempty]
    · rw [range_nrTzones, sameLog, ← range_nrTzones]
      exact (directory₁.addLog_within used₁).mpr room₁
  · rw [if_neg empty] at room
    exact ⟨directory.add proper fresh empty room device range, (directory.addLog_within empty).mpr room⟩

theorem NameDir.no_block (directory : NameDir v dir own array)
    (empty : (v.inodeTable dir).iZone 0 = 0#32)
    (outside : ∀ n, firstFree (shown v.cache mapBlock) = some (n + 1) → 50 ≤ n + 1) :
    addZones dir ino string (List.range nrTzones) v = none := by
  have onDisk := directory.onDisk (b := mapBlock) (by decide) (by decide)
  -- the block that is added to the directory is behind the disk
  have lost {ret : Int} {c : Cache} {vol : Volume} (taken : allocBlock dir (some .rootfs) v =
      some (ret, { vol with cache := c })) (device : (vol.inodeTable dir).iDev = some .rootfs)
      (idle : ∃ allowed, Idle allowed c) (size : c.rootfsDiskSize = 51200)
      (behind : 51200 ≤ (BitVec.ofInt 32 ret).toNat * blockSize % wordSize) :
      addZones dir ino string (List.range nrTzones) v = none := by
    obtain ⟨allowed, idle⟩ := idle
    rw [range_nrTzones, addZones, bind_run (growZone_taken directory.device empty taken),
      bind_run readIno_run]
    have kept : (({ vol with cache := c }.updateInode dir fun d => { d with
        iZone := update d.iZone 0 (BitVec.ofInt 32 ret) }).inodeTable dir).iDev =
        some .rootfs := by
      rw [Volume.updateInode_same]
      exact device
    rw [kept]
    exact bind_none (derefBlock_outside idle.stores size behind)
  by_cases free : ∃ n, firstFree (shown v.cache mapBlock) = some (n + 1)
  · obtain ⟨n, free⟩ := free
    obtain ⟨c', taken, idle, size⟩ := allocBlock_run dir directory.idle directory.bounded onDisk free
    have large := outside n free
    have small := firstFree_lt free
    refine lost taken ?_ ⟨_, idle⟩ (size.trans directory.size) ?_
    · rw [Volume.taken, Volume.updateInode_same]
      exact directory.device
    · rw [show BitVec.ofInt 32 (n + 1 : Int) =
        BitVec.ofNat 32 (n + 1) from BitVec.ofInt_ofNat 32 (n + 1),
        BitVec.toNat_ofNat]
      unfold blockSize wordSize at *
      omega
  · push Not at free
    obtain ⟨c', taken, idle, size⟩ := allocBlock_full dir directory.idle directory.bounded onDisk
      (directory.onDisk (by decide) (by decide)) free
    exact lost taken directory.device ⟨_, idle⟩ (size.trans directory.size) (by decide)

/-- **Room is needed**: without it the call does not come back or reads the entry that overhangs. -/
theorem NameDir.room_needed (directory : NameDir v dir own (shownWord v.cache)) (spare : Spare v own)
    (added : addZones dir ino string (List.range nrTzones) v ≠ none)
    (reads : ∀ read ∈ (addZonesLog dir ino string (List.range nrTzones)).log v, read.Within) :
    HasRoom v dir own := by
  unfold HasRoom
  by_cases empty : (v.inodeTable dir).iZone 0 = 0#32
  · rw [if_pos empty]
    by_contra full
    refine added (directory.no_block empty fun n free => ?_)
    by_contra small
    obtain ⟨mine, blank⟩ := spare n free (by omega)
    exact full ⟨n, free, by omega, mine, blank⟩
  · rw [if_neg empty]
    exact (directory.addLog_within empty).mp reads

section

variable (directory : NameDir v dir own array)
include directory

theorem NameDir.shownWord : NameDir v dir own (Fs.shownWord v.cache) := by
  have same {b : Nat} (mine : own b) : ∀ k < blockSize,
      Fs.shownWord v.cache (b * blockSize + k) = array (b * blockSize + k) := fun k inside =>
    directory.idle.shownWord_settled mine (directory.settled b mine).1 inside
  have names :
      ∀ p ∈ places (v.inodeTable dir).zones, nameAt (Fs.shownWord v.cache) p = nameAt array p :=
    fun p member => congrArg Entry.name (directory.entryAt_shown member)
  refine directory.kept .refl directory.zones ?_ (fun p here q there => ?_) fun p member => ?_
  · refine directory.idle.mono fun b words settled mine => ?_
    have words := settled mine
    unfold ofArray at *
    rw [words]
    exact (slice_congr fun k inside => same mine k inside).symm
  · rw [names p here, names q there]
    exact directory.names p here q there
  · rw [names p member]
    exact directory.ended p member

/-- `add_inode_to_directory` on a directory, with a name that fits. -/
theorem NameDir.addInode_eq (who : Owner) (ino : InodeNr) (fits : string.length < dirnameLen) :
    addInodeToDirectory who dir ino string v = (if hasFileAccess who (v.inodeTable dir) wOk then
      addZones dir ino string (List.range nrTzones) v else some (eacces, v)) ∧
    (addInodeToDirectoryLog who dir ino string).log v = if hasFileAccess who (v.inodeTable dir) wOk then
      (addZonesLog dir ino string (List.range nrTzones)).log v else [] := by
  rw [addInodeToDirectory, addInodeToDirectoryLog, bind_run readIno_run,
    Logged.lift_log_run readIno_run, directory.isDir, if_neg (Nat.not_le.mpr fits),
    if_neg (Nat.not_le.mpr fits)]
  cases hasFileAccess who (v.inodeTable dir) wOk with
  | true => exact ⟨rfl, rfl⟩
  | false => exact ⟨rfl, rfl⟩

theorem NameDir.removeInode_eq (who : Owner) (target : InodeNr) (name : List Word) :
    removeInodeFromDir who dir target name v = (if hasFileAccess who (v.inodeTable dir) wOk then
      removeZones (some .rootfs) target name (v.inodeTable dir).zones v else some (eacces, v)) ∧
    (removeInodeFromDirLog who dir target name).log v = if hasFileAccess who (v.inodeTable dir) wOk then
      (removeZonesLog (some .rootfs) target name (v.inodeTable dir).zones).log v else [] := by
  rw [removeInodeFromDir, removeInodeFromDirLog, bind_run readIno_run,
    Logged.lift_log_run readIno_run, directory.device]
  cases hasFileAccess who (v.inodeTable dir) wOk with
  | true => exact ⟨rfl, rfl⟩
  | false => exact ⟨rfl, rfl⟩

theorem NameDir.advanceLog_eq (nonempty : name ≠ []) :
    (advanceLog dir name).log v =
      (lookupZonesLog (some .rootfs) name (v.inodeTable dir).zones).log v := by
  rw [advanceLog, if_neg nonempty, Logged.lift_log_run readIno_run, directory.device]

end

section

variable (directory : NameDir v dir own (Fs.shownWord v.cache))
include directory
variable {call : DirCall}

/-- **What a call does** that finds what it looks for in time. -/
theorem NameDir.serve (proper : call.Proper v dir) (fits : call.Fits v dir own) :
    (∃ v', call.serve dir v = some (call.answer v dir, v') ∧
      Names v dir own (Fs.shownWord v.cache) (call.effect v dir (dirNames v dir)) v') ∧
    ∀ read ∈ (call.traced dir).log v, read.Within := by
  have unchanged : Names v dir own (Fs.shownWord v.cache) (dirNames v dir) v :=
    directory.same directory.idle rfl
  cases call with
  | look name =>
    obtain ⟨c', looked, idle, size⟩ := directory.look proper
    refine ⟨⟨_, looked, directory.same idle size⟩, ?_⟩
    rw [DirCall.traced, directory.advanceLog_eq (ComponentName.nonempty proper)]
    exact (lookupZonesLog_within proper directory.idle directory.zones).mpr fits
  | add who ino string =>
    obtain ⟨entry, fresh, ⟨dev, device⟩, range⟩ := proper
    obtain ⟨run, log⟩ := directory.addInode_eq who ino entry.fits
    rw [DirCall.serve, DirCall.traced, DirCall.answer, DirCall.effect, run, log]
    by_cases access : hasFileAccess who (v.inodeTable dir) wOk = true
    · simp only [if_pos access]
      exact directory.add_room entry fresh device range (fits access)
    · simp only [if_neg access]
      exact ⟨⟨v, rfl, unchanged⟩, fun read member => absurd member not_mem_nil⟩
  | remove who target name =>
    obtain ⟨run, log⟩ := directory.removeInode_eq who target name
    rw [DirCall.serve, DirCall.traced, DirCall.answer, DirCall.effect, run, log]
    by_cases access : hasFileAccess who (v.inodeTable dir) wOk = true
    · simp only [access, true_and, if_true]
      exact ⟨directory.remove proper,
        (removeZones_run target proper directory.idle directory.zones).2.mpr (fits access)⟩
    · simp only [access]
      exact ⟨⟨v, rfl, unchanged⟩, fun read member => absurd member not_mem_nil⟩

theorem NameDir.fits_of_right (spare : Spare v own) (proper : call.Proper v dir)
    (right : call.Right v dir own) : call.Fits v dir own := by
  obtain ⟨v', served, -, -, reads⟩ := right
  cases call with
  | look name =>
    rw [DirCall.traced, directory.advanceLog_eq (ComponentName.nonempty proper)] at reads
    exact (lookupZonesLog_within proper directory.idle directory.zones).mp reads
  | add who ino string =>
    intro access
    obtain ⟨run, log⟩ := directory.addInode_eq who ino proper.1.fits
    rw [DirCall.serve, run, if_pos access] at served
    rw [DirCall.traced, log, if_pos access] at reads
    refine directory.room_needed spare (fun lost => ?_) reads
    rw [lost] at served
    cases served
  | remove who target name =>
    intro access
    obtain ⟨run, log⟩ := directory.removeInode_eq who target name
    rw [DirCall.traced, log, if_pos access] at reads
    exact (removeZones_run target proper directory.idle directory.zones).2.mp reads

theorem NameDir.right_of_fits (proper : call.Proper v dir) (fits : call.Fits v dir own) :
    call.Right v dir own := by
  obtain ⟨⟨v', served, after⟩, reads⟩ := directory.serve proper fits
  exact ⟨v', served, fun name component => after.shows component,
    fun b mine other => after.others directory mine other, reads⟩

end

/-- The state after a call. -/
def dirStep (dir : InodeNr) (v : Volume) (call : DirCall) : Option Volume :=
  (call.serve dir v).map Prod.snd

theorem DirCall.effect_congr {names names' : List Word → Option Int} {call : DirCall}
    (stays : Stays v v' dir) (same : ∀ name ≠ [], names' name = names name)
    (proper : call.Proper v' dir) :
    ∀ name ≠ [], call.effect v' dir names' name = call.effect v dir names name := by
  intro name nonempty
  cases call with
  | look other => exact same name nonempty
  | add who ino string =>
    simp only [DirCall.effect, stays.access, stays.number]
    split_ifs
    · rw [update_apply, update_apply, same name nonempty]
    · exact same name nonempty
  | remove who target other =>
    simp only [DirCall.effect, stays.access, stays.number, same other (ComponentName.nonempty proper)]
    split_ifs
    · rw [update_apply, update_apply, same name nonempty]
    · exact same name nonempty

/-- **A run of calls** that find what they look for in time. -/
theorem NameDir.run {v₀ : Volume} {names : List Word → Option Int} {calls : List DirCall}
    (directory : NameDir v dir own (Fs.shownWord v.cache)) (stays : Stays v₀ v dir)
    (same : ∀ name ≠ [], dirNames v dir name = names name)
    (meets : Meets (dirStep dir) (fun v call => call.Proper v dir ∧ call.Fits v dir own) v calls) :
    ∃ v', runFrom (dirStep dir) v calls = some v' ∧ NameDir v' dir own (Fs.shownWord v'.cache) ∧
      ∀ name ≠ [], dirNames v' dir name = calls.foldl (DirCall.effect v₀ dir) names name := by
  induction calls generalizing v names with
  | nil => exact ⟨v, rfl, directory, same⟩
  | cons call calls ih =>
    obtain ⟨⟨proper, fits⟩, rest⟩ := meets
    obtain ⟨⟨v₁, served, after⟩, -⟩ := directory.serve proper fits
    have stepped : dirStep dir v call = some v₁ := by rw [dirStep, served]; rfl
    rw [stepped] at rest
    obtain ⟨array₁, directory₁, -⟩ := after.directory
    obtain ⟨v', ran, directory', names'⟩ := ih directory₁.shownWord (stays.trans after.stays)
      (fun name nonempty => (after.names name nonempty).trans
        (DirCall.effect_congr stays same proper name nonempty)) rest
    exact ⟨v', runFrom_cons.mpr ⟨v₁, stepped, ran⟩, directory', names'⟩

/-- **A directory is a finite map as far as its first block goes.** A call is right if and only if
it finds what it looks for in time. In a run of such calls `advance` returns the inode that was last
added under a name and not removed, and every call is right. -/
theorem directory_map_iff (v : Volume) (dir : InodeNr) (own : Nat → Prop)
    (directory : NameDir v dir own (shownWord v.cache)) :
    (Spare v own → ∀ call : DirCall, call.Proper v dir →
      (call.Right v dir own ↔ call.Fits v dir own)) ∧
    ∀ calls : List DirCall,
      Meets (dirStep dir) (fun v call => call.Proper v dir ∧ call.Fits v dir own) v calls →
      ∃ v', runFrom (dirStep dir) v calls = some v' ∧
        (∀ name, ComponentName name → ∃ v'', advance dir name v' =
          some ((calls.foldl (DirCall.effect v dir) (dirNames v dir) name).getD err, v'')) ∧
        ∀ call : DirCall, call.Proper v' dir → call.Fits v' dir own → call.Right v' dir own := by
  refine ⟨fun spare call proper =>
    ⟨directory.fits_of_right spare proper, directory.right_of_fits proper⟩, fun calls meets => ?_⟩
  obtain ⟨v', ran, directory', names⟩ := directory.run Stays.refl (fun _ _ => rfl) meets
  refine ⟨v', ran, fun name proper => ?_, fun call => directory'.right_of_fits⟩
  obtain ⟨c', looked, -, -⟩ := directory'.look proper
  rw [names name proper.nonempty] at looked
  exact ⟨_, looked⟩

end Right

/-! ### The root of a new file system -/

/-- The root and a file, in the first two slots of the table. -/
def rootVolume : Volume :=
  let vol := imageVolume plainLayout
  let file := { Inode.zero with iNum := 2, iDev := some .rootfs }
  { vol with inodeTable := update (update vol.inodeTable rootSlot loadedRoot) fileSlot file }

/-- The blocks for data. -/
def dataBlock (b : Nat) : Prop := 4 ≤ b ∧ b < 50

/-- Give the file the names `a`, `b` and so on. -/
def nameFile (k : Nat) : DirCall := .add ⟨0, 0, 0⟩ fileSlot [BitVec.ofNat 32 (97 + k)]

theorem root_directory : NameDir rootVolume rootSlot dataBlock (shownWord rootVolume.cache) := by
  have tree : Tree (imageVolume plainLayout) image := image_tree
  have only : ∀ p ∈ places loadedRoot.zones, nameAt image p ≠ [] → p = (4, 0) ∨ p = (4, 1) := by
    decide +kernel
  have directory : NameDir rootVolume rootSlot dataBlock image := by
    have idle : Idle (settled dataBlock image) (imageVolume plainLayout).cache := tree.rest.settled _
    refine ⟨by decide, rfl, tree.formatted.bounded, tree.size, idle, ?_, ?_, ?_, ?_⟩
    · intro b data
      unfold dataBlock mapBlock at *
      omega
    · intro zone member used
      have zones : loadedRoot.zones = 4#32 :: List.replicate 7 0#32 := rfl
      have four : zone = 4#32 := by
        rw [show (rootVolume.inodeTable rootSlot).zones = loadedRoot.zones from rfl, zones] at member
        exact (mem_cons.mp member).resolve_right fun zero => used (eq_of_mem_replicate zero)
      rw [four]
      have inside : Inside (imageVolume plainLayout).cache 4 := ⟨by decide, by decide⟩
      exact ⟨⟨by decide, by decide⟩, inside⟩
    · intro p here q there same named
      have differ : nameAt image (4, 0) ≠ nameAt image (4, 1) := by decide +kernel
      rcases only p here named with rfl | rfl
      · rcases only q there (same ▸ named) with rfl | rfl
        · rfl
        · exact absurd same differ
      · rcases only q there (same ▸ named) with rfl | rfl
        · exact absurd same.symm differ
        · rfl
    · decide +kernel
  exact directory.shownWord

theorem root_spare :
    firstFree (shown rootVolume.cache mapBlock) = some 5 ∧ Spare rootVolume dataBlock := by
  have next : firstFree (shown rootVolume.cache mapBlock) = some 5 := by decide +kernel
  refine ⟨next, fun n free inside => ?_⟩
  rw [next] at free
  obtain rfl : n = 4 := by
    have := Option.some.inj free
    omega
  exact ⟨⟨by decide, by decide⟩, by decide +kernel⟩

/-- The file gets a name in the root, and is found under it. -/
theorem root_names_file :
    (nameFile 0).Right rootVolume rootSlot dataBlock ∧
    ∃ v', runFrom (dirStep rootSlot) rootVolume [nameFile 0] = some v' ∧
      ∃ v'', advance rootSlot [97#32] v' = some (2, v'') := by
  have plain : ∀ c ∈ [97#32], c ≠ 0#32 ∧ c.toNat < 256 := fun c member => by
    rw [mem_singleton.mp member]
    decide
  have name : EntryName [97#32] := ⟨⟨by decide, plain, by decide⟩, by decide⟩
  have proper : (nameFile 0).Proper rootVolume rootSlot :=
    ⟨name, by decide +kernel, ⟨.rootfs, rfl⟩, by decide⟩
  have fits : (nameFile 0).Fits rootVolume rootSlot dataBlock := by
    intro _
    rw [HasRoom, if_neg (by decide +kernel)]
    exact ⟨2, by decide, by decide +kernel⟩
  obtain ⟨iff, runs⟩ := directory_map_iff rootVolume rootSlot dataBlock root_directory
  refine ⟨(iff root_spare.2 _ proper).mpr fits, ?_⟩
  obtain ⟨v', ran, shows, -⟩ := runs [nameFile 0] ⟨⟨proper, fits⟩, by split <;> trivial⟩
  refine ⟨v', ran, ?_⟩
  have found := shows [97#32] name.toComponentName
  exact found

/-- **The thirtieth name**: after twenty-nine names the first block of the root is full. The next
call takes a field of the buffer behind the block for a free entry, and would write the name over it. -/
theorem thirtieth_name_overhangs :
    ∃ v, runFrom (dirStep rootSlot) rootVolume ((List.range 29).map nameFile) = some v ∧
      (nameFile 29).serve rootSlot v = none ∧
      ∃ read ∈ ((nameFile 29).traced rootSlot).log v, ¬ read.Within := by
  have ran : (runFrom (dirStep rootSlot) rootVolume ((List.range 29).map nameFile)).any (fun v =>
      ((nameFile 29).serve rootSlot v).isNone && (((nameFile 29).traced rootSlot).log v).any fun read =>
        decide (blockSize < read.first + read.len)) = true := by
    decide +kernel
  obtain ⟨v, ran, holds⟩ := (Option.any_eq_true _ _).mp ran
  rw [Bool.and_eq_true, any_eq_true] at holds
  obtain ⟨lost, read, member, outside⟩ := holds
  exact ⟨v, ran, Option.isNone_iff_eq_none.mp lost, read, member,
    Nat.not_le.mpr (of_decide_eq_true outside)⟩

end Winix.Fs
