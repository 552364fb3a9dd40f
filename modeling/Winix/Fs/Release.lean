/-
**Released blocks.**

`release_block` clears a block and its bit in the block map, and puts the block of the map back without
marking it dirty. So the bit is cleared in memory; on the disk it is cleared only if something else has
made the map's buffer dirty.

* `Serves.words`: what the block map shows in all traffic that does not write it;
* `Fading.evicted`: a clean block can be driven out of memory by reading other blocks;
* **`released_stays_free_iff`**: when a released block stays free in the map.
-/

import Winix.Fs.Makefs
import Mathlib.Order.Interval.Finset.Nat

namespace Winix.Fs

open Kernel Lib List Option Prog

/-! ### Bits of a block -/

/-- The block of the block map. -/
def mapBlock : Nat := 1

/-- A bit in the words of a block. -/
def bitIn (words : List Word) (n : Nat) : Bool := bitOn (fun k => words.getD k 0#32) n

theorem bitIn_slice {array : Nat → Word} {n : Nat} (small : n < blockSize * 32) :
    bitIn (slice array 0 blockSize) n = bitOn array n := by
  have inside : n / 32 < blockSize := Nat.div_lt_of_lt_mul (by rwa [Nat.mul_comm] at small)
  have word : (slice array 0 blockSize).getD (n / 32) 0#32 = array (n / 32) := by
    rw [getD_eq_getElem?_getD, slice, getElem?_map, getElem?_range inside]
    simp only [map_some, Option.getD_some, Nat.zero_add]
  rw [bitIn, bitOn, word, bitOn]

/-- The map has the bit of the block cleared and the other bits as before. -/
def Cleared (before : List Word) (b : Nat) (words : List Word) : Prop :=
  ∀ n < blockSize * 32, bitIn words n = (!decide (n = b) && bitIn before n)

theorem cleared_bitmapClearBit {map : Nat → Word} {b : Nat} (small : b < blockSize * 32) :
    Cleared (slice map 0 blockSize) b (slice (bitmapClearBit map blockSize b) 0 blockSize) := by
  intro n inside
  rw [bitIn_slice inside, bitIn_slice inside, bitmapClearBit, if_neg (Nat.not_le.mpr small),
    bitOn_eraseBit]

/-! ### Traffic that does not write the map -/

/-- What the users of the cache may do: they keep to the rules for a disk of fifty blocks, and do
not put the map back dirty. -/
def Traffic (a : Flat) (event : CacheEvent) : Prop :=
  Legal 50 a event ∧ ∀ block, event ≠ .putDirt mapBlock block

/-- **What the map shows** in all such traffic: words that are allowed for it. -/
theorem Serves.words {P : List Word → Prop} (events : List CacheEvent) :
    ∀ {allowed : Nat → List Word → Prop} {s : Client} {a : Flat} (log : List Seen),
      (∀ words, allowed mapBlock words → P words) → Serves 50 allowed s a.held →
      Meets flatStep Traffic a events →
      ∃ s' later, runFrom (logged clientStep clientSeen) (s, log) events = some (s', log ++ later) ∧
        ∀ words, Seen.got mapBlock words ∈ later → P words := by
  induction events with
  | nil =>
    intro allowed s a log _ _ _
    exact ⟨s, [], by rw [append_nil]; rfl, fun words member => absurd member not_mem_nil⟩
  | cons event events ih =>
    intro allowed s a log may serves meets
    obtain ⟨⟨legal, other⟩, rest⟩ := meets
    obtain ⟨s', a', stepped, flat, shown, serves'⟩ := serves.step event legal
    rw [flat] at rest
    have may' : ∀ words, allowedAfter allowed event mapBlock words → P words := by
      intro words after
      refine may words ?_
      cases event with
      | putDirt b block =>
        have apart : mapBlock ≠ b := fun same => other block (same ▸ rfl)
        rwa [allowedAfter, Function.update_of_ne apart] at after
      | get b => exact after
      | put b => exact after
      | flush => exact after
    obtain ⟨s'', later, ran, reads⟩ := ih (log ++ clientSeen s event) may' serves' rest
    refine ⟨s'', clientSeen s event ++ later, ?_, fun words member => ?_⟩
    · rw [← append_assoc]
      exact runFrom_cons.mpr ⟨_, logged_eq_some.mpr ⟨stepped, rfl⟩, ran⟩
    · rcases mem_append.mp member with here | after
      · generalize clientSeen s event = seen at shown here
        cases shown with
        | get allowed' =>
          obtain ⟨rfl, rfl⟩ := Seen.got.inj (mem_singleton.mp here)
          exact may words allowed'
        | putDirt b block => exact absurd here not_mem_nil
        | put b => exact absurd here not_mem_nil
        | flush _ => cases mem_singleton.mp here
      · exact reads words after

/-! ### Driving a block out of memory -/

/-- The map is dirty in no buffer, and the disk has these words for it. -/
structure Unmarked (words : List Word) (c : Cache) : Prop where
  clean : ∀ i, (c.bufTable i).bDirt = true → (c.bufTable i).bBlocknr ≠ mapBlock
  disk : slice c.rootfsDisk (mapBlock * blockSize) blockSize = words
  size : c.rootfsDiskSize = 51200

/-- The map is not marked and nobody holds a buffer; these are the buffers from the rear on. -/
structure Fading (words : List Word) (c : Cache) (cells : List BufNr) : Prop where
  unmarked : Unmarked words c
  stores : Stores (fun _ _ => True) c
  linked : Linked c.links cells
  all : ∀ i, i ∈ cells

section Unmarked

variable {words : List Word} {c c' : Cache} {i : BufNr} {b : Nat} {allowed : Nat → List Word → Prop}

theorem SameBlocks.unmarked (same : SameBlocks c c') (unmarked : Unmarked words c) :
    Unmarked words c' := by
  refine ⟨fun i dirt => ?_, ?_, same.size.trans unmarked.size⟩
  · rw [same.dirt] at dirt
    rw [same.blocknr]
    exact unmarked.clean i dirt
  · rw [same.disk]
    exact unmarked.disk

theorem Unmarked.update (unmarked : Unmarked words c) {f : BlockBuffer → BlockBuffer}
    (number : (f (c.bufTable i)).bBlocknr = (c.bufTable i).bBlocknr)
    (dirt : (f (c.bufTable i)).bDirt = true →
      (c.bufTable i).bDirt = true ∨ (c.bufTable i).bBlocknr ≠ mapBlock) :
    Unmarked words (c.updateBuf i f) := by
  refine ⟨fun j marked => ?_, unmarked.disk, unmarked.size⟩
  by_cases here : j = i
  · rw [here, updateBuf_self] at marked ⊢
    rw [number]
    exact (dirt marked).elim (unmarked.clean i) id
  · rw [updateBuf_of_ne _ _ here] at marked ⊢
    exact unmarked.clean j marked

theorem Took.unmarked (took : Took c allowed [] b i c') (unmarked : Unmarked words c) :
    Unmarked words c' := by
  refine ⟨fun j dirt => ?_, (took.disk mapBlock unmarked.clean).trans unmarked.disk,
    took.size.trans unmarked.size⟩
  by_cases here : j = i
  · rw [here] at dirt ⊢
    rcases took.which with ⟨number, same⟩ | ⟨-, -, clean, -⟩
    · rw [took.blocknr, ← number]
      exact unmarked.clean i (same ▸ dirt)
    · rw [clean] at dirt
      cases dirt
  · rw [(took.others j here).1]
    rw [(took.others j here).2.1] at dirt
    exact unmarked.clean j dirt

end Unmarked

section Fading

variable {words : List Word} {c : Cache} {i : BufNr} {cells : List BufNr}

theorem Fading.listed (fading : Fading words c cells) : Listed c [] :=
  ⟨nodup_nil, cells, fading.linked, fun i => by simp [fading.all i]⟩

/-- Reading a block that is not in memory takes the buffer at the rear and puts it in front. -/
theorem Fading.turn (fading : Fading words c (i :: cells)) (stays : cells ≠ []) :
    ∃ b c₁ c₂, 2 ≤ b ∧ b < 50 ∧ getBlockBuffer c b .rootfs = some (some i, c₁) ∧
      putBlockBuffer c₁ i = some c₂ ∧ Fading words c₂ (cells ++ [i]) ∧
      (c₂.bufTable i).bBlocknr ≠ mapBlock ∧
      ∀ j, j ≠ i → (c₂.bufTable j).bBlocknr = (c.bufTable j).bBlocknr := by
  obtain ⟨b, range, absent⟩ := exists_not_buffered c (by decide : lruLen < (Finset.Icc 2 6).card)
  obtain ⟨low, high⟩ := Finset.mem_Icc.mp range
  have inside : Inside c b := inside_of_lt fading.unmarked.size (by omega) (by omega)
  have idle : Idle (fun _ _ => True) c := ⟨fading.stores, fading.listed⟩
  obtain ⟨i', c₁, got, held, took⟩ := idle.get inside
  obtain ⟨-, rear, clean, links⟩ := took.which.resolve_left fun here => absent i' here.1
  obtain rfl : i = i' := Option.some.inj (fading.linked.forward.1.symm.trans rear)
  obtain ⟨c₂, put, idle₂, same⟩ := held.put
  have linked₁ : Linked c₁.links cells := by
    rw [links]
    exact fading.linked.takeRear stays
  obtain ⟨front, first, links₂⟩ := putBlockBuffer_links put
  have number : (c₂.bufTable i).bBlocknr = b := (same.blocknr i).trans took.blocknr
  have others (j : BufNr) (apart : j ≠ i) : (c₂.bufTable j).bBlocknr = (c.bufTable j).bBlocknr :=
    (same.blocknr j).trans (took.others j apart).1
  refine ⟨b, c₁, c₂, low, by omega, got, put,
    ⟨same.unmarked (took.unmarked fading.unmarked), idle₂.stores, ?_, fun j => ?_⟩, ?_, others⟩
  · obtain ⟨before, last, rfl⟩ := (eq_nil_or_concat cells).resolve_left stays
    rw [concat_eq_append] at *
    have same : c₁.links.front = some last := linked₁.backward_split.head?_eq
    obtain rfl : front = last := Option.some.inj (first.symm.trans same)
    rw [links₂]
    exact linked₁.addFront (nodup_cons.mp fading.linked.nodup).1
  · rw [mem_append, mem_singleton]
    exact (mem_cons.mp (fading.all j)).symm
  · rw [number]
    unfold mapBlock
    omega

/-- **The map is driven out of memory** by reading other blocks. -/
theorem Fading.evicted (todo : List BufNr) : ∀ {c : Cache} {done : List BufNr} (log : List Seen),
    Fading words c (todo ++ done) → 2 ≤ (todo ++ done).length →
    (∀ i ∈ done, (c.bufTable i).bBlocknr ≠ mapBlock) →
    ∃ events c' cells log',
      (∀ array later, Meets flatStep Traffic ⟨array, []⟩ later →
        Meets flatStep Traffic ⟨array, []⟩ (events ++ later)) ∧
      runFrom (logged clientStep clientSeen) (⟨c, []⟩, log) events = some (⟨c', []⟩, log') ∧
      Fading words c' cells ∧ ∀ i, (c'.bufTable i).bBlocknr ≠ mapBlock := by
  induction todo with
  | nil =>
    intro c done log fading _ gone
    exact ⟨[], c, done, log, fun _ _ meets => meets, rfl, fading, fun i => gone i (fading.all i)⟩
  | cons i todo ih =>
    intro c done log fading two gone
    have stays : todo ++ done ≠ [] := by
      intro none
      rw [cons_append, none] at two
      exact absurd two (by simp)
    obtain ⟨b, c₁, c₂, low, high, got, put, fading₂, new, others⟩ := fading.turn stays
    have fading₂ : Fading words c₂ (todo ++ (done ++ [i])) := by
      rw [← append_assoc]
      exact fading₂
    have gone₂ : ∀ j ∈ done ++ [i], (c₂.bufTable j).bBlocknr ≠ mapBlock := by
      intro j member
      by_cases here : j = i
      · rw [here]
        exact new
      · rw [others j here]
        refine gone j ((mem_append.mp member).resolve_right fun last => here ?_)
        exact mem_singleton.mp last
    have two₂ : 2 ≤ (todo ++ (done ++ [i])).length := by
      rw [cons_append, length_cons, length_append] at two
      rw [length_append, length_append, length_singleton]
      omega
    have stepGet : clientStep ⟨c, []⟩ (.get b) = some ⟨c₁, [(b, i)]⟩ := by
      simp only [clientStep, got, bind_eq_bind, bind_some]
    have stepPut : clientStep ⟨c₁, [(b, i)]⟩ (.put b) = some ⟨c₂, []⟩ := by
      simp [clientStep, put, Client.others]
    obtain ⟨events, c', cells, log', meets, ran, fading', gone'⟩ := ih
      ((log ++ clientSeen ⟨c, []⟩ (.get b)) ++ clientSeen ⟨c₁, [(b, i)]⟩ (.put b)) fading₂ two₂ gone₂
    refine ⟨.get b :: .put b :: events, c', cells, log', fun array later rest => ?_, ?_, fading', gone'⟩
    · refine ⟨⟨⟨by omega, high, not_mem_nil,
        show 0 + 1 ≤ lruLen - 1 by decide⟩, fun _ same => by cases same⟩,
        ⟨mem_singleton.mpr rfl, fun _ same => by cases same⟩, ?_⟩
      have emptied : ([b].filter fun other => other ≠ b) = [] := by simp
      show Meets flatStep Traffic ⟨array, [b].filter fun other => other ≠ b⟩ (events ++ later)
      rw [emptied]
      exact meets array later rest
    · exact runFrom_cons.mpr ⟨(⟨c₁, [(b, i)]⟩, _), logged_eq_some.mpr ⟨stepGet, rfl⟩,
        runFrom_cons.mpr ⟨_, logged_eq_some.mpr ⟨stepPut, rfl⟩, ran⟩⟩

theorem Fading.shows (fading : Fading words c cells) (gone : ∀ i, (c.bufTable i).bBlocknr ≠ mapBlock)
    (log : List Seen) :
    ∃ s', logged clientStep clientSeen (⟨c, []⟩, log) (.get mapBlock) =
      some (s', log ++ [.got mapBlock words]) := by
  have idle : Idle (fun _ _ => True) c := ⟨fading.stores, fading.listed⟩
  have inside : Inside c mapBlock := inside_of_lt fading.unmarked.size (by decide) (by decide)
  obtain ⟨i, c', got, -, took⟩ := idle.get inside
  have stepped : clientStep ⟨c, []⟩ (.get mapBlock) = some ⟨c', [(mapBlock, i)]⟩ := by
    simp only [clientStep, got, bind_eq_bind, bind_some]
  have seen : clientSeen ⟨c, []⟩ (.get mapBlock) = [.got mapBlock words] := by
    simp only [clientSeen, stepped, head?_cons, map_some, toList_some, took.words,
      shown_of_absent gone, fading.unmarked.disk]
  exact ⟨_, logged_eq_some.mpr ⟨stepped, by rw [seen]⟩⟩

end Fading

/-! ### What `release_block` does -/

/-- The steps of `release_block` on the cache: the block is got, cleared and put back dirty; the map is
got, the bit is cleared, and the map is put back. -/
structure ReleaseSteps (allowed : Nat → List Word → Prop) (c : Cache) (b : Nat) (i : BufNr)
    (c₁ c₂ : Cache) (j : BufNr) (c₃ c' : Cache) : Prop where
  got : getBlockBuffer c b .rootfs = some (some i, c₁)
  block : Took c allowed [] b i c₁
  emptied : SameBlocks ((c₁.updateBuf i fun buf => { buf with
    block := fillWords 0#32 blockSize buf.block 0 }).updateBuf i
      fun buf => { buf with bDirt := true }) c₂
  stores : Stores allowed c₂
  map : Took c₂ allowed [] mapBlock j c₃
  put : SameBlocks (c₃.updateBuf j fun buf => { buf with
    block := bitmapClearBit buf.block blockSize b }) c'
  idle : Idle allowed c'

section ReleaseSteps

variable {allowed : Nat → List Word → Prop} {v : Volume} {b : Word} {c c₁ c₂ c₃ c' : Cache}
  {i j : BufNr} {n : Nat}

theorem releaseBlock_run (formatted : Formatted v.rootSb) (size : v.cache.rootfsDiskSize = 51200)
    (idle : Idle allowed v.cache) (positive : 1 ≤ b.toNat) (small : b.toNat < 50)
    (block : ∀ words, allowed b.toNat words) (map : ∀ words, allowed mapBlock words) :
    ∃ i c₁ c₂ j c₃ c', releaseBlock b (some .rootfs) v = some (ok, { v with
        cache := c'
        rootSb := { v.rootSb with
          sBlockInuse := v.rootSb.sBlockInuse - 1, sFreeBlocks := v.rootSb.sFreeBlocks + 1 } }) ∧
      ReleaseSteps allowed v.cache b.toNat i c₁ c₂ j c₃ c' := by
  obtain ⟨i, c₁, gotBuffer, held, took⟩ := idle.get (inside_of_lt size positive small)
  have got : derefBlock b (some .rootfs) v = some (i, { v with cache := c₁ }) :=
    derefBlock_got gotBuffer
  obtain ⟨c₂, put, idle₂, same⟩ := rewriteBlock_held (v := { v with cache := c₁ }) held positive
    (fun words => fillWords 0#32 blockSize words 0) (allowed b.toNat) (block _)
  rw [Function.update_eq_self] at idle₂
  have mapnr : v.rootSb.sBlockmapnr + BitVec.ofNat 32 (b.toNat / blockSize) = 1#32 := by
    rw [formatted.blockmapnr, Nat.div_eq_of_lt (lt_trans small (by decide))]
    rfl
  have size₂ : c₂.rootfsDiskSize = 51200 := same.size.trans (took.size.trans size)
  have inside : Inside c₂ (1#32).toNat := inside_of_lt size₂ (by decide) (by decide)
  obtain ⟨j, c₃, gotMap, heldMap, tookMap⟩ := derefBlock_idle (v := { v with cache := c₂ }) idle₂ inside
  have cleared : Held allowed (c₃.updateBuf j fun buf => { buf with
      block := bitmapClearBit buf.block blockSize b.toNat }) j mapBlock :=
    heldMap.stain (fun words => bitmapClearBit words blockSize b.toNat) (map _)
  obtain ⟨c₅, putMap, idle₅, same₅⟩ := cleared.put
  refine ⟨i, c₁, c₂, j, c₃, c₅, ?_, gotBuffer, took, same, idle₂.stores, tookMap, same₅, idle₅⟩
  have inMap : ¬ v.rootSb.sBlockmapSize.toNat < b.toNat := by
    rw [formatted.blockmapSize]
    exact Nat.not_lt.mpr (le_trans small.le (by decide))
  rw [releaseBlock, bind_run derefSb_run, if_neg inMap, bind_run got]
  rw [bind_run changeBlock_run, bind_run put, mapnr, bind_run gotMap,
    bind_run changeBlock_run, modify_bind]
  exact bind_run (by rw [putBlock, putMap]; rfl)

section

variable (release : ReleaseSteps allowed c n i c₁ c₂ j c₃ c')
include release

theorem ReleaseSteps.size : c'.rootfsDiskSize = c.rootfsDiskSize :=
  release.put.size.trans (release.map.size.trans (release.emptied.size.trans release.block.size))

theorem ReleaseSteps.unmarked {words : List Word} (data : n ≠ mapBlock)
    (unmarked : Unmarked words c₁) : Unmarked words c' := by
  have number : (c₁.bufTable i).bBlocknr ≠ mapBlock := by
    rw [release.block.blocknr]
    exact data
  have emptied : Unmarked words c₂ := by
    refine release.emptied.unmarked ((unmarked.update rfl fun dirt => .inl dirt).update rfl
      fun _ => .inr ?_)
    rw [updateBuf_self]
    exact number
  have got : Unmarked words c₃ := release.map.unmarked emptied
  exact release.put.unmarked (got.update rfl fun dirt => .inl dirt)

/-- A buffer with another block than the released one, until the map is got. -/
theorem ReleaseSteps.other {k : BufNr} (apart : k ≠ i) :
    (c₂.bufTable k).bBlocknr = (c.bufTable k).bBlocknr ∧ (c₂.bufTable k).bDirt = (c.bufTable k).bDirt ∧
      (c₂.bufTable k).block = (c.bufTable k).block := by
  obtain ⟨number, dirt, block⟩ := release.block.others k apart
  rw [release.emptied.blocknr, release.emptied.dirt, release.emptied.block, updateBuf_of_ne _ _ apart,
    updateBuf_of_ne _ _ apart]
  exact ⟨number, dirt, block⟩

theorem ReleaseSteps.words {k : BufNr} (here : (c'.bufTable k).bBlocknr = mapBlock) : k = j ∧
      ∃ map, slice map 0 blockSize = shown c₂ mapBlock ∧
        slice (c'.bufTable k).block 0 blockSize =
          slice (bitmapClearBit map blockSize n) 0 blockSize := by
  have number : (c'.bufTable j).bBlocknr = mapBlock := by
    rw [release.put.blocknr, updateBuf_self]
    exact release.map.blocknr
  obtain rfl : k = j := release.idle.stores.unique k j (by rw [here]; decide) (here.trans number.symm)
  refine ⟨rfl, (c₃.bufTable k).block, release.map.words, ?_⟩
  rw [release.put.block, updateBuf_self]

end

/-- What is allowed for the map at the end: every word it has there. -/
theorem ReleaseSteps.narrow {P : List Word → Prop}
    (release : ReleaseSteps (fun _ _ => True) c n i c₁ c₂ j c₃ c')
    (memory : ∀ map, slice map 0 blockSize = shown c₂ mapBlock →
      P (slice (bitmapClearBit map blockSize n) 0 blockSize))
    (disk : (∀ k, (c'.bufTable k).bDirt = true → (c'.bufTable k).bBlocknr ≠ mapBlock) →
      P (slice c'.rootfsDisk (mapBlock * blockSize) blockSize)) :
    Idle (Function.update (fun _ _ => True) mapBlock P) c' := by
  refine ⟨release.idle.stores.narrow (fun k here => ?_) disk, release.idle.listed⟩
  obtain ⟨-, map, before, after⟩ := release.words here
  rw [after]
  exact memory map before

end ReleaseSteps

/-! ### When the bit stays cleared -/

/-- `release_block` returns, and in all traffic that does not write the map, every read of it shows the
block's bit cleared and the other bits as they were. -/
def StaysFree (v : Volume) (b : Word) : Prop :=
  ∃ v', releaseBlock b (some .rootfs) v = some (ok, v') ∧
    ∀ events, Meets flatStep Traffic ⟨v'.cache.rootfsDisk, []⟩ events →
      ∃ s log, runFrom (logged clientStep clientSeen) (⟨v'.cache, []⟩, []) events = some (s, log) ∧
        ∀ words, Seen.got mapBlock words ∈ log → Cleared (shown v.cache mapBlock) b.toNat words

/-- The buffer of the map is dirty, and getting the block does not take it away; or the map is dirty in
no buffer and the disk has the bit cleared already. -/
def MapKept (c : Cache) (b : Nat) : Prop :=
  (∃ j, (c.bufTable j).bBlocknr = mapBlock ∧ (c.bufTable j).bDirt = true ∧
    ((∃ i, (c.bufTable i).bBlocknr = b) ∨ c.rear ≠ some j)) ∨
  ((∀ j, (c.bufTable j).bDirt = true → (c.bufTable j).bBlocknr ≠ mapBlock) ∧
    Cleared (shown c mapBlock) b (slice c.rootfsDisk (mapBlock * blockSize) blockSize))

section StaysFree

variable {c c₁ c₂ c₃ c' : Cache} {i j : BufNr} {n : Nat}

variable (release : ReleaseSteps (fun _ _ => True) c n i c₁ c₂ j c₃ c')
include release

section

variable (stores : Stores (fun _ _ => True) c)
include stores

/-- The words of the map when its buffer is got: those from before, or the disk's. -/
theorem ReleaseSteps.shown_map (data : n ≠ mapBlock) :
    shown c₂ mapBlock = shown c mapBlock ∨
      (∀ k, (c₂.bufTable k).bBlocknr ≠ mapBlock) ∧
        shown c₂ mapBlock = slice c₁.rootfsDisk (mapBlock * blockSize) blockSize := by
  by_cases cached : ∃ k, (c₂.bufTable k).bBlocknr = mapBlock
  · obtain ⟨k, here⟩ := cached
    have apart : k ≠ i := by
      rintro rfl
      rw [release.emptied.blocknr, updateBuf_self, updateBuf_self, release.block.blocknr] at here
      exact data here
    obtain ⟨number, -, block⟩ := release.other apart
    left
    rw [release.stores.shown_eq (by decide) here, stores.shown_eq (by decide) (number ▸ here), block]
  · push Not at cached
    right
    refine ⟨cached, ?_⟩
    rw [shown_of_absent cached, release.emptied.disk]
    rfl

theorem ReleaseSteps.marked (data : n ≠ mapBlock) {k : BufNr}
    (here : (c.bufTable k).bBlocknr = mapBlock) (dirt : (c.bufTable k).bDirt = true)
    (kept : (∃ i, (c.bufTable i).bBlocknr = n) ∨ c.rear ≠ some k) :
    shown c₂ mapBlock = shown c mapBlock ∧ (c'.bufTable k).bDirt = true ∧
      (c'.bufTable k).bBlocknr = mapBlock := by
  have apart : k ≠ i := by
    rintro rfl
    rcases release.block.which with ⟨number, -⟩ | ⟨absent, rear, -⟩
    · exact data (number.symm.trans here)
    · rcases kept with ⟨i, cached⟩ | other
      · exact absent i cached
      · exact other rear
  obtain ⟨number, same, block⟩ := release.other apart
  have here₂ : (c₂.bufTable k).bBlocknr = mapBlock := number.trans here
  have words : shown c₂ mapBlock = shown c mapBlock := by
    rw [release.stores.shown_eq (by decide) here₂, stores.shown_eq (by decide) here, block]
  rcases release.map.which with ⟨number', same'⟩ | ⟨absent, -⟩
  · obtain rfl : j = k := release.stores.unique j k (by rw [number']; decide) (number'.trans here₂.symm)
    rw [release.put.dirt, release.put.blocknr, updateBuf_self]
    exact ⟨words, same'.trans (same.trans dirt), release.map.blocknr⟩
  · exact absurd here₂ (absent k)

/-- **The condition suffices**: the map has the bit cleared wherever it lies. -/
theorem ReleaseSteps.cleared (data : n ≠ mapBlock) (small : n < blockSize * 32)
    (size : c.rootfsDiskSize = 51200) (kept : MapKept c n) :
    Idle (Function.update (fun _ _ => True) mapBlock (Cleared (shown c mapBlock) n)) c' := by
  rcases kept with ⟨k, here, dirt, kept⟩ | ⟨clean, cleared⟩
  · obtain ⟨words, dirt', here'⟩ := release.marked stores data here dirt kept
    refine release.narrow (fun map before => ?_) fun clean => absurd here' (clean k dirt')
    rw [← words, ← before]
    exact cleared_bitmapClearBit small
  · have unmarked := release.unmarked data (release.block.unmarked ⟨clean, rfl, size⟩)
    refine release.narrow (fun map before => ?_) fun _ => ?_
    · have after : Cleared (slice map 0 blockSize) n _ := cleared_bitmapClearBit small
      rw [before] at after
      rcases release.shown_map stores data with same | ⟨-, same⟩
      · rwa [same] at after
      · rw [same, release.block.disk mapBlock clean] at after
        intro m inside
        rw [after m inside, cleared m inside, ← Bool.and_assoc, Bool.and_self]
    · rw [unmarked.disk]
      exact cleared

end

/-- **The condition is needed**: the map is marked nowhere, and the disk does not have the bit
cleared. -/
theorem ReleaseSteps.lost (idle : Idle (fun _ _ => True) c) (inside : Inside c n)
    (data : n ≠ mapBlock) (small : n < blockSize * 32) (size : c.rootfsDiskSize = 51200)
    (used : bitIn (shown c mapBlock) n = true) (gone : ¬ MapKept c n) :
    ∃ words, Unmarked words c' ∧ ¬ Cleared (shown c mapBlock) n words := by
  by_cases clean : ∀ k, (c.bufTable k).bDirt = true → (c.bufTable k).bBlocknr ≠ mapBlock
  · exact ⟨_, release.unmarked data (release.block.unmarked ⟨clean, rfl, size⟩), fun cleared =>
      gone (.inr ⟨clean, cleared⟩)⟩
  · push Not at clean
    obtain ⟨k, dirt, here⟩ := clean
    have lost : (∀ i, (c.bufTable i).bBlocknr ≠ n) ∧ c.rear = some k := by
      refine ⟨fun i cached => gone (.inl ⟨k, here, dirt, .inl ⟨i, cached⟩⟩), ?_⟩
      by_contra other
      exact gone (.inl ⟨k, here, dirt, .inr other⟩)
    -- the map's buffer is the one that the block takes, so the map is written back
    obtain ⟨-, rear, clean, -⟩ := release.block.which.resolve_left fun cached => lost.1 i cached.1
    obtain rfl : k = i := Option.some.inj (lost.2.symm.trans rear)
    have only : Stores (Function.update (fun _ _ => True) mapBlock fun words =>
        words = shown c mapBlock) c :=
      idle.stores.narrow (fun k here => (idle.stores.shown_eq (by decide) here).symm) fun clean =>
        absurd here (clean k dirt)
    have away (m : BufNr) : (c₁.bufTable m).bBlocknr ≠ mapBlock := by
      intro same
      by_cases taken : m = k
      · rw [taken, release.block.blocknr] at same
        exact data same
      · rw [(release.block.others m taken).1] at same
        exact taken (idle.stores.unique m k (by rw [same]; decide) (same.trans here.symm))
    have written : slice c₁.rootfsDisk (mapBlock * blockSize) blockSize = shown c mapBlock := by
      have idle' : Idle _ c := ⟨only, idle.listed⟩
      obtain ⟨k', c₁', got, -, took⟩ := idle'.get inside
      obtain rfl : c₁ = c₁' := (run_unique release.got got).2
      have words := took.stores.disk mapBlock fun m _ => away m
      rwa [Function.update_self] at words
    have unmarked : Unmarked (shown c mapBlock) c₁ :=
      ⟨fun m _ => away m, written, release.block.size.trans size⟩
    refine ⟨_, release.unmarked data unmarked, fun cleared => ?_⟩
    have off := cleared n small
    rw [used] at off
    simp at off

end StaysFree

/-- **A released block stays free** in the map, whatever is read and written, if and only if the map's
buffer is dirty and `release_block` does not take it away, or the disk has the bit cleared already. -/
theorem released_stays_free_iff {v : Volume} {b : Word} (formatted : Formatted v.rootSb)
    (size : v.cache.rootfsDiskSize = 51200) (idle : Idle (fun _ _ => True) v.cache)
    (data : 4 ≤ b.toNat ∧ b.toNat < 50) (used : bitIn (shown v.cache mapBlock) b.toNat = true) :
    StaysFree v b ↔ MapKept v.cache b.toNat := by
  obtain ⟨low, high⟩ := data
  have data : b.toNat ≠ mapBlock := by
    unfold mapBlock
    omega
  have small : b.toNat < blockSize * 32 := lt_trans high (by decide)
  obtain ⟨i, c₁, c₂, j, c₃, c', released, release⟩ :=
    releaseBlock_run formatted size idle (by omega) high (fun _ => trivial) fun _ => trivial
  have size' : c'.rootfsDiskSize = 51200 := release.size.trans size
  constructor
  · rintro ⟨v', released', stays⟩
    obtain rfl := (run_unique released released').2
    by_contra gone
    obtain ⟨words, unmarked, still⟩ := release.lost idle (inside_of_lt size (by omega) high) data small
      size used gone
    obtain ⟨-, cells, linked, complement⟩ := release.idle.listed
    have fading : Fading words c' (cells ++ []) := by
      rw [append_nil]
      exact ⟨unmarked, release.idle.stores, linked, fun i => (complement i).mpr not_mem_nil⟩
    have four : 2 ≤ (cells ++ []).length := by
      have count := length_add_length linked.nodup nodup_nil complement
      rw [append_nil]
      simp only [length_nil, lruLen] at count
      omega
    obtain ⟨events, faded, cells', log', meets, ran, fading', gone'⟩ := fading.evicted cells [] four
      fun i member => absurd member not_mem_nil
    have last : Meets flatStep Traffic ⟨c'.rootfsDisk, []⟩ [.get mapBlock] :=
      ⟨⟨⟨by decide, by decide, not_mem_nil, show 0 + 1 ≤ lruLen - 1 by decide⟩,
        fun _ same => by cases same⟩, trivial⟩
    obtain ⟨s, log, all, reads⟩ := stays (events ++ [.get mapBlock]) (meets _ _ last)
    obtain ⟨middle, ran', last⟩ := runFrom_append.mp all
    obtain rfl : (⟨faded, []⟩, log') = middle := Option.some.inj (ran.symm.trans ran')
    obtain ⟨s', seen⟩ := fading'.shows gone' log'
    obtain ⟨after, stepped, stopped⟩ := runFrom_cons.mp last
    obtain rfl := Option.some.inj (stepped.symm.trans seen)
    obtain rfl := (Prod.mk.inj (Option.some.inj stopped)).2
    exact still (reads words (mem_append_right _ (mem_singleton.mpr rfl)))
  · intro kept
    refine ⟨_, released, fun events meets => ?_⟩
    have cleared := release.cleared idle.stores data small size kept
    have serves : Serves 50 _ ⟨c', []⟩ [] :=
      ⟨by rw [size']; decide, cleared.stores, rfl, Nat.zero_le _,
        fun entry member => absurd member not_mem_nil, cleared.listed⟩
    obtain ⟨s', later, ran, reads⟩ :=
      Serves.words events (P := Cleared (shown v.cache mapBlock) b.toNat)
      [] (fun words may => by rwa [Function.update_self] at may) serves meets
    exact ⟨s', later, ran, reads⟩

/-- The cache of a kernel that has started and written the map, as `alloc_block` does. -/
def mapWritten : Option Cache := do
  let (i, c) ← getBlockBuffer (imageVolume plainLayout).cache mapBlock .rootfs
  putBlockBufferDirt c (← i)

/-- After that the block of the root directory can be released, and stays free. -/
theorem free_after_write : ∃ c, mapWritten = some c ∧
    StaysFree { imageVolume plainLayout with cache := c } 4 := by
  have tree : Tree (imageVolume plainLayout) image := image_tree
  have inside : Inside (imageVolume plainLayout).cache mapBlock :=
    inside_of_lt tree.size (by decide) (by decide)
  obtain ⟨i, c₁, got, held, took⟩ := tree.rest.idle.get inside
  obtain ⟨c₂, put, idle, same⟩ := held.putDirt (by decide) (fun _ => True) trivial
  have written : mapWritten = some c₂ := by
    rw [mapWritten, got]
    exact put
  obtain ⟨c, checked, here, dirt, rear, bit⟩ := exists_of_any (by decide +kernel :
    mapWritten.any (fun c => decide ((c.bufTable 0).bBlocknr = mapBlock ∧ (c.bufTable 0).bDirt = true ∧
      c.rear ≠ some 0 ∧ bitIn (shown c mapBlock) 4 = true)) = true)
  obtain rfl : c₂ = c := Option.some.inj (written.symm.trans checked)
  have size : c₂.rootfsDiskSize = 51200 := same.size.trans (took.size.trans tree.size)
  have idle : Idle (fun _ _ => True) c₂ := idle.mono fun _ _ _ => trivial
  exact ⟨c₂, written, (released_stays_free_iff (v := { imageVolume plainLayout with cache := c₂ })
    (b := 4) tree.formatted size idle (by decide) bit).mpr (.inl ⟨0, here, dirt, .inr rear⟩)⟩

/-- The events between the release and the next read of the map: four other blocks are read. -/
def fourReads : List CacheEvent :=
  [.get 5, .put 5, .get 6, .put 6, .get 7, .put 7, .get 8, .put 8, .get mapBlock]

theorem fourReads_traffic (array : Nat → Word) : Meets flatStep Traffic ⟨array, []⟩ fourReads := by
  simp [Meets, fourReads, Traffic, Legal, flatStep, mapBlock]

/-- Some read of the map shows the bit on. -/
def showsBit (n : Nat) (log : List Seen) : Bool := log.any fun
  | .got b words => decide (b = mapBlock) && bitIn words n
  | .flushed _ => false

/-- **A released block is in use again**: the block of the root directory is released on a kernel
that has just started, four other blocks are read, and the map that is read from the disk has the
bit on. -/
theorem released_in_use_again : ∃ v' s log,
    releaseBlock 4 (some .rootfs) (imageVolume plainLayout) = some (ok, v') ∧
    Meets flatStep Traffic ⟨v'.cache.rootfsDisk, []⟩ fourReads ∧
    runFrom (logged clientStep clientSeen) (⟨v'.cache, []⟩, []) fourReads = some (s, log) ∧
    showsBit 4 log = true := by
  have ran : ((releaseBlock 4 (some .rootfs) (imageVolume plainLayout)).bind fun result =>
      (runFrom (logged clientStep clientSeen) (⟨result.2.cache, []⟩, []) fourReads).map fun ended =>
        (result, ended)).any (fun run => decide (run.1.1 = ok ∧ showsBit 4 run.2.2 = true)) = true := by
    decide +kernel
  obtain ⟨⟨⟨result, v'⟩, s, log⟩, ran, rfl, on⟩ := exists_of_any ran
  obtain ⟨⟨result, v''⟩, released, ended⟩ := bind_eq_some_iff.mp ran
  obtain ⟨last, reads, same⟩ := map_eq_some_iff.mp ended
  obtain ⟨⟨rfl, rfl⟩, rfl⟩ := Prod.mk.inj same |>.imp Prod.mk.inj id
  exact ⟨v'', s, log, released, fourReads_traffic _, reads, on⟩

end Winix.Fs
