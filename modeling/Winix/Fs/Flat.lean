/-
**The block cache is a flat array.**

A user of the cache gets a block, changes its buffer or not, and puts it back. Seen from there the
cache is a flat array of words (`Flat`): a dirty put writes a block of it, a get reads one, and
flushing shows the array on the disk.

* `Serves`: every block has allowed words; each step of the user is served with such words.
* `Related` ties a state of the cache and its user to a state of the flat array: the buffers and the
  disk are coherent with the array and the list holds exactly the buffers the user does not.
* **`cache_refines_flat`**: the cache does what the array does, in every run from `init_buf` that is
  `Legal`.
-/

import Winix.Fs.Coherent
import Winix.Lib.Run
import Mathlib.Data.Fintype.Card

namespace Winix.Fs

variable {out : List BufNr} {i : BufNr} {c : Cache} {allowed : Nat → List Word → Prop} {b : Nat}

open Kernel Lib Function List Option

/-! ### The user of the cache -/

/-- What a user does. A change of the buffer's words and the dirty put that follows are one event. -/
inductive CacheEvent
  | get (blocknr : Nat)
  | putDirt (blocknr : Nat) (block : Nat → Word)
  | put (blocknr : Nat)
  | flush

/-- The cache, and the buffers the user holds with the block numbers it asked for. -/
structure Client where
  cache : Cache
  held : List (Nat × BufNr)

/-- The user's other buffers. -/
def Client.others (s : Client) (blocknr : Nat) : List (Nat × BufNr) :=
  s.held.filter fun entry => entry.1 ≠ blocknr

/-- One event; `none` when the get fails, the put is of nothing or the machine does not come back. -/
def clientStep (s : Client) : CacheEvent → Option Client
  | .get blocknr => do
    let (tbuf, cache) ← getBlockBuffer s.cache blocknr .rootfs
    let tbuf ← tbuf
    some ⟨cache, (blocknr, tbuf) :: s.held⟩
  | .putDirt blocknr block => do
    let tbuf ← s.held.lookup blocknr
    let cache ← putBlockBufferDirt (s.cache.updateBuf tbuf fun buf => { buf with block }) tbuf
    some ⟨cache, s.others blocknr⟩
  | .put blocknr => do
    let tbuf ← s.held.lookup blocknr
    let cache ← putBlockBuffer s.cache tbuf
    some ⟨cache, s.others blocknr⟩
  | .flush => do
    let cache ← flushAllBuffer s.cache
    some ⟨cache, s.held⟩

/-- What is seen: the words in the buffer of a get, the disk after a flush. -/
inductive Seen
  | got (blocknr : Nat) (words : List Word)
  | flushed (disk : Nat → Word)

/-- What a client of the cache sees. -/
def clientSeen (s : Client) (event : CacheEvent) : List Seen :=
  match event, clientStep s event with
  | .get blocknr, some s' =>
    (s'.held.head?.map fun entry =>
      Seen.got blocknr (slice (s'.cache.bufTable entry.2).block 0 blockSize)).toList
  | .flush, some s' => [.flushed s'.cache.rootfsDisk]
  | _, _ => []

/-! ### The flat array -/

/-- The words of the disk as the user sees them, and the blocks the user holds. -/
structure Flat where
  array : Nat → Word
  held : List Nat

/-- The array of words that the cache should be. -/
def flatStep (a : Flat) : CacheEvent → Option Flat
  | .get blocknr => some { a with held := blocknr :: a.held }
  | .putDirt blocknr block =>
    some ⟨copyWords blockSize a.array (blocknr * blockSize) block 0,
      a.held.filter fun b => b ≠ blocknr⟩
  | .put blocknr => some { a with held := a.held.filter fun b => b ≠ blocknr }
  | .flush => some a

/-- What a client should see. -/
def flatSeen (a : Flat) : CacheEvent → List Seen
  | .get blocknr => [.got blocknr (slice a.array (blocknr * blockSize) blockSize)]
  | .flush => [.flushed a.array]
  | _ => []

/-- The rules for the user of a disk with this many blocks. -/
def Legal (diskBlocks : Nat) (a : Flat) : CacheEvent → Prop
  | .get blocknr =>
    1 ≤ blocknr ∧ blocknr < diskBlocks ∧ blocknr ∉ a.held ∧ a.held.length + 1 ≤ lruLen - 1
  | .putDirt blocknr _ => blocknr ∈ a.held
  | .put blocknr => blocknr ∈ a.held
  | .flush => True

instance (diskBlocks : Nat) (a : Flat) : ∀ event, Decidable (Legal diskBlocks a event)
  | .get _ => inferInstanceAs (Decidable (_ ∧ _ ∧ _ ∧ _))
  | .putDirt blocknr _ | .put blocknr => inferInstanceAs (Decidable (blocknr ∈ a.held))
  | .flush => isTrue trivial

/-! ### The list, and the buffers the user holds -/

/-- The list holds exactly the buffers the user does not. -/
structure Listed (c : Cache) (out : List BufNr) : Prop where
  nodup : out.Nodup
  list : ∃ cells, Linked c.links cells ∧ ∀ i, i ∈ cells ↔ i ∉ out

theorem length_add_length {cells out : List BufNr} (nodup : cells.Nodup) (nodup' : out.Nodup)
    (complement : ∀ i, i ∈ cells ↔ i ∉ out) : cells.length + out.length = lruLen := by
  have disjoint : List.Disjoint cells out := fun i listed held => (complement i).mp listed held
  have all := (nodup_append'.mpr ⟨nodup, nodup', disjoint⟩)
  have count := toFinset_card_of_nodup all
  have univ : (cells ++ out).toFinset = Finset.univ := by
    ext i
    simp only [List.mem_toFinset, mem_append, Finset.mem_univ, iff_true]
    by_cases held : i ∈ out
    · exact .inr held
    · exact .inl ((complement i).mpr held)
  rw [univ, Finset.card_univ, Fintype.card_fin, length_append] at count
  exact count.symm

theorem exists_not_buffered (c : Cache) {blocks : Finset Nat} (more : lruLen < blocks.card) :
    ∃ b ∈ blocks, ∀ i, (c.bufTable i).bBlocknr ≠ b := by
  have fewer : (Finset.univ.image fun i => (c.bufTable i).bBlocknr).card < blocks.card :=
    (Finset.card_image_le.trans (Fintype.card_fin lruLen).le).trans_lt more
  obtain ⟨b, inside, absent⟩ := Finset.exists_mem_notMem_of_card_lt_card fewer
  exact ⟨b, inside, fun i same => absent (Finset.mem_image.mpr ⟨i, Finset.mem_univ i, same⟩)⟩

theorem Listed.without (before after : List BufNr) (nodup : out.Nodup)
    (complement : ∀ j, j ∈ before ++ i :: after ↔ j ∉ out) (alone : (before ++ i :: after).Nodup)
    (linked : Linked c.links (before ++ after)) : Listed c (i :: out) := by
  have inside := (complement i).mp (mem_append_right _ mem_cons_self)
  refine ⟨nodup_cons.mpr ⟨inside, nodup⟩, before ++ after, linked, fun j => ?_⟩
  rw [Chain.mem_split alone, complement, mem_cons, not_or, and_comm]

theorem Listed.remove {c c' : Cache} (listed : Listed c out) (inside : i ∉ out)
    (links : c'.links = c.links.remove i) : Listed c' (i :: out) := by
  obtain ⟨nodup, cells, linked, complement⟩ := listed
  obtain ⟨before, after, rfl⟩ := append_of_mem ((complement i).mpr inside)
  exact .without before after nodup complement linked.nodup (links ▸ linked.remove)

theorem Listed.takeRear (listed : Listed c out) (few : out.length + 1 ≤ lruLen - 1) :
    ∃ i, i ∉ out ∧ c.rear = some i ∧ ∀ c', c'.links = c.links.takeRear i → Listed c' (i :: out) := by
  obtain ⟨nodup, cells, linked, complement⟩ := listed
  have count := length_add_length linked.nodup nodup complement
  have two : 2 ≤ cells.length := by
    omega
  obtain ⟨i, rest, rfl⟩ := exists_cons_of_length_pos (lt_of_lt_of_le Nat.zero_lt_two two)
  have stays : rest ≠ [] := by
    rintro rfl
    simp at two
  refine ⟨i, (complement i).mp mem_cons_self, linked.forward.1, fun c' links => ?_⟩
  exact .without [] rest nodup complement linked.nodup (links ▸ linked.takeRear stays)

theorem Listed.addFront {out out' : List BufNr} (listed : Listed c out) (held : i ∈ out)
    (few : out.length ≤ lruLen - 1) (nodup' : out'.Nodup)
    (members : ∀ j, j ∈ out' ↔ j ∈ out ∧ j ≠ i) :
    ∃ front, c.front = some front ∧ ∀ c', c'.links = c.links.addFront front i → Listed c' out' := by
  obtain ⟨nodup, cells, linked, complement⟩ := listed
  have count := length_add_length linked.nodup nodup complement
  have some' : cells ≠ [] := by
    rintro rfl
    simp only [length_nil, lruLen] at count few
    omega
  obtain ⟨before, front, rfl⟩ := (eq_nil_or_concat cells).resolve_left some'
  rw [concat_eq_append] at *
  have fresh : i ∉ before ++ [front] := fun listed => (complement i).mp listed held
  have first : c.links.front = some front := linked.backward_split.head?_eq
  refine ⟨front, first, fun c' links => ⟨nodup', before ++ [front] ++ [i], ?_, fun j => ?_⟩⟩
  · rw [links]
    exact linked.addFront fresh
  · rw [mem_append, complement, mem_singleton, members]
    by_cases here : j = i <;> simp [here]

/-! ### The operations -/

/-- What a get of the block shows: the words of its buffer, or else of the disk. -/
def shown (c : Cache) (b : Nat) : List Word :=
  match bufSlots.find? fun i => (c.bufTable i).bBlocknr = b with
  | some i => slice (c.bufTable i).block 0 blockSize
  | none => slice c.rootfsDisk (b * blockSize) blockSize

theorem Stores.shown_eq (stores : Stores allowed c) (positive : b ≠ 0)
    (here : (c.bufTable i).bBlocknr = b) : shown c b = slice (c.bufTable i).block 0 blockSize := by
  unfold shown
  cases found : bufSlots.find? fun i => (c.bufTable i).bBlocknr = b with
  | none =>
    have absent := List.find?_eq_none.mp found i (mem_finRange i)
    simp [here] at absent
  | some k =>
    have same : (c.bufTable k).bBlocknr = b := by simpa using find?_some found
    rw [stores.unique k i (by rw [same]; exact positive) (same.trans here.symm)]

theorem shown_of_absent (absent : ∀ i, (c.bufTable i).bBlocknr ≠ b) :
    shown c b = slice c.rootfsDisk (b * blockSize) blockSize := by
  have none : (bufSlots.find? fun i => (c.bufTable i).bBlocknr = b) = none :=
    List.find?_eq_none.mpr fun i _ => by simpa using absent i
  rw [shown, none]

theorem Stores.shown_allowed (stores : Stores allowed c) (positive : b ≠ 0) :
    allowed b (shown c b) := by
  by_cases cached : ∃ i, (c.bufTable i).bBlocknr = b
  · obtain ⟨i, here⟩ := cached
    have words := stores.contents i (by rw [here]; exact positive)
    rwa [here, ← stores.shown_eq positive here] at words
  · push Not at cached
    rw [shown_of_absent cached]
    exact stores.disk b fun i _ => cached i

/-- What a get yields: a buffer with the block, no longer on the list. It is the buffer that had the
block, or the one at the rear of the list. -/
structure Took (c : Cache) (allowed : Nat → List Word → Prop) (out : List BufNr) (b : Nat) (i : BufNr)
    (c' : Cache) : Prop where
  stores : Stores allowed c'
  listed : Listed c' (i :: out)
  blocknr : (c'.bufTable i).bBlocknr = b
  words : slice (c'.bufTable i).block 0 blockSize = shown c b
  others : ∀ j, j ≠ i → (c'.bufTable j).bBlocknr = (c.bufTable j).bBlocknr ∧
    (c'.bufTable j).bDirt = (c.bufTable j).bDirt ∧ (c'.bufTable j).block = (c.bufTable j).block
  which : ((c.bufTable i).bBlocknr = b ∧ (c'.bufTable i).bDirt = (c.bufTable i).bDirt) ∨
    ((∀ j, (c.bufTable j).bBlocknr ≠ b) ∧ c.rear = some i ∧ (c'.bufTable i).bDirt = false ∧
      c'.links = c.links.takeRear i)
  disk : ∀ x, (∀ j, (c.bufTable j).bDirt = true → (c.bufTable j).bBlocknr ≠ x) →
    slice c'.rootfsDisk (x * blockSize) blockSize = slice c.rootfsDisk (x * blockSize) blockSize
  size : c'.rootfsDiskSize = c.rootfsDiskSize

/-- The words that follow a `dequeue_buf` in `get_block_buffer`. -/
theorem blockIoRead_eq (c : Cache) (i : BufNr) (dev : Device)
    (inside : b * blockSize + blockSize ≤ c.rootfsDiskSize.toNat) :
    blockIoRead (c.updateBuf i fun buf => { buf with bBlocknr := b }) i dev =
      (blockSize, (c.updateBuf i fun buf => { buf with bBlocknr := b }).updateBuf i fun buf =>
        { buf with
          block := copyWords blockSize (c.bufTable i).block 0 c.rootfsDisk (b * blockSize) }) := by
  have size := c.rootfsDiskSize.isLt
  have noWrap : b * blockSize % wordSize = b * blockSize := by
    refine Nat.mod_eq_of_lt ?_
    unfold blockSize wordSize at *
    omega
  have read : blkDevIoRead (c.updateBuf i fun buf => { buf with bBlocknr := b })
      (c.bufTable i).block (b * blockSize) blockSize =
        (blockSize, copyWords blockSize (c.bufTable i).block 0 c.rootfsDisk (b * blockSize)) :=
    blkDevIoRead_inside _ _ (Nat.lt_of_lt_of_le (Nat.lt_add_of_pos_right (by decide)) inside) inside
      le_rfl
  simp only [blockIoRead, updateBuf_self, noWrap, read]

/-- The buffer as `get_block_buffer` leaves it. -/
def loadInto (c : Cache) (i : BufNr) (b : Nat) : Cache :=
  ((c.updateBuf i fun buf => { buf with bBlocknr := b }).updateBuf i fun buf =>
    { buf with
      block := copyWords blockSize (c.bufTable i).block 0 c.rootfsDisk (b * blockSize) }).updateBuf i
    fun buf =>
      { buf with
        bBlocknr := b, next := none, prev := none, bDirt := false, bDev := some .rootfs
        bCount := 1 }

theorem loaded_load (c : Cache) (i : BufNr) (b : Nat) : Loaded c i b (loadInto c i b) := by
  refine ⟨?_, ?_, ?_, ?_, fun j apart => ?_, rfl, rfl⟩
  · simp only [loadInto, updateBuf_self]
    exact slice_copyWords ..
  · simp only [loadInto, updateBuf_self]
  · simp only [loadInto, updateBuf_self]
  · simp only [loadInto, updateBuf_self]
  · simp only [loadInto, updateBuf_of_ne _ _ apart]

theorem loadInto_links (c : Cache) (i : BufNr) (b : Nat) (next : c.links.next i = none)
    (prev : c.links.prev i = none) : (loadInto c i b).links = c.links := by
  unfold loadInto
  rw [links_updateBuf, links_updateBuf _ _ _ rfl rfl, links_updateBuf _ _ _ rfl rfl]
  · simp only [updateBuf_self]
    exact next.symm
  · simp only [updateBuf_self]
    exact prev.symm

/-- **A get succeeds** for a block on the disk while two buffers are on the list. -/
theorem getBlockBuffer_took (stores : Stores allowed c) (listed : Listed c out)
    (few : out.length + 1 ≤ lruLen - 1)
    (inside : b * blockSize + blockSize ≤ c.rootfsDiskSize.toNat)
    (free : ∀ i ∈ out, (c.bufTable i).bBlocknr ≠ b) :
    ∃ i c', getBlockBuffer c b .rootfs = some (some i, c') ∧ Took c allowed out b i c' := by
  unfold getBlockBuffer
  cases found : bufSlots.find? fun i => (c.bufTable i).bBlocknr = b with
  | some i =>
    have here : (c.bufTable i).bBlocknr = b := by
      have := find?_some found
      simpa using this
    have same : SameBlocks c ((rmLru c i).updateBuf i fun buf =>
        { buf with bCount := buf.bCount + 1 }) :=
      (SameBlocks.setLinks c _).trans (SameBlocks.count _ i fun count => count + 1)
    refine ⟨i, _, rfl, same.stores stores, ?_, ?_, ?_,
      fun j _ => ⟨same.blocknr j, same.dirt j, same.block j⟩, .inl ⟨here, same.dirt i⟩,
      fun x _ => by rw [same.disk], same.size⟩
    · exact listed.remove (fun held => free i held here) (links_updateBuf _ _ _ rfl rfl)
    · rw [same.blocknr, here]
    · rw [same.block, shown, found]
  | none =>
    have absent (j : BufNr) : (c.bufTable j).bBlocknr ≠ b := by
      have := List.find?_eq_none.mp found j (mem_finRange j)
      simpa using this
    obtain ⟨i, inList, rear, taken⟩ := listed.takeRear few
    have dequeued : dequeueBuf c = (some i, c.setLinks (c.links.takeRear i)) := by
      rw [dequeueBuf, rear]
    simp only [dequeued]
    have same := SameBlocks.setLinks c (c.links.takeRear i)
    have written := (same.stores stores).writeBack i .rootfs
    have cleaned := (same.stores stores).writeBack_cleaned i .rootfs
    have clean := writeBack_clean (c := c.setLinks (c.links.takeRear i)) i .rootfs
    have dirt {j : BufNr} (apart : j ≠ i) :=
      writeBack_of_ne (c := c.setLinks (c.links.takeRear i)) apart .rootfs
    have disk := (same.stores stores).writeBack_elsewhere i .rootfs
    generalize writeBack (c.setLinks (c.links.takeRear i)) i .rootfs = c₂ at *
    have blocknr (j : BufNr) : (c₂.bufTable j).bBlocknr = (c.bufTable j).bBlocknr :=
      (cleaned.blocknr j).trans (same.blocknr j)
    have size : c₂.rootfsDiskSize = c.rootfsDiskSize := cleaned.size.trans same.size
    rw [← size] at inside
    simp only [blockIoRead_eq c₂ i .rootfs inside, ne_eq, not_true_eq_false, if_false]
    refine ⟨i, loadInto c₂ i b, rfl, ?_⟩
    have loaded := loaded_load c₂ i b
    have links : (loadInto c₂ i b).links = c.links.takeRear i := by
      rw [loadInto_links, cleaned.links]
      · rfl
      · rw [cleaned.links]
        exact update_self ..
      · rw [cleaned.links]
        exact update_self ..
    refine ⟨written.load clean inside (fun j _ => ?_) loaded, taken _ links, loaded.blocknr, ?_,
      fun j apart => ?_, .inr ⟨absent, rear, loaded.clean, links⟩, fun x outside => ?_, ?_⟩
    · rw [blocknr]
      exact absent j
    · rw [loaded.words, shown, found]
      exact disk b fun j _ => absent j
    · rw [loaded.others j apart, blocknr, dirt apart, cleaned.block]
      exact ⟨rfl, rfl, rfl⟩
    · rw [loaded.disk]
      exact disk x outside
    · rw [loaded.size, size]

/-- What a put yields: the buffer is back on the list. -/
structure Gave (c : Cache) (out' : List BufNr) (c' : Cache) : Prop where
  same : SameBlocks c c'
  listed : Listed c' out'

theorem putBlockBuffer_gave {out out' : List BufNr} (listed : Listed c out) (held : i ∈ out)
    (few : out.length ≤ lruLen - 1) (nodup' : out'.Nodup)
    (members : ∀ j, j ∈ out' ↔ j ∈ out ∧ j ≠ i) :
    ∃ c', putBlockBuffer c i = some c' ∧ Gave c out' c' := by
  obtain ⟨front, first, added⟩ := listed.addFront held few nodup' members
  refine ⟨_, by simp only [putBlockBuffer, enqueueBuf, first, map_some]; rfl, ?_, ?_⟩
  · exact (SameBlocks.setLinks c _).trans
      (SameBlocks.count _ i fun count => if count - 1 ≤ 0 then 0 else count - 1)
  · exact added _ (links_updateBuf _ _ _ rfl rfl)

theorem putBlockBuffer_links {c c' : Cache} (put : putBlockBuffer c i = some c') :
    ∃ front, c.front = some front ∧ c'.links = c.links.addFront front i := by
  unfold putBlockBuffer enqueueBuf at put
  cases first : c.front with
  | none =>
    rw [first] at put
    cases put
  | some front =>
    rw [first] at put
    obtain rfl := Option.some.inj put
    exact ⟨front, rfl, links_updateBuf _ _ _ rfl rfl⟩

/-- Flushing some of the buffers: they are clean, and nothing else changed. -/
theorem foldlM_flushBuf (slots : List BufNr) (stores : Stores allowed c) :
    ∃ c', slots.foldlM flushBuf c = some c' ∧ Stores allowed c' ∧ Cleaned c c' ∧
      ∀ i ∈ slots, (c'.bufTable i).bDirt = false := by
  induction slots generalizing c with
  | nil =>
    exact ⟨c, rfl, stores, ⟨fun _ => rfl, fun _ => rfl, fun _ => rfl, fun _ => id, rfl, rfl⟩,
      fun i member => absurd member not_mem_nil⟩
  | cons i slots ih =>
    have flushed : flushBuf c i = some (writeBack c i .rootfs) := by
      unfold flushBuf
      split_ifs with dirt
      · rw [stores.device i (stores.dirty i dirt), map_some]
      · rw [writeBack, if_neg dirt]
    obtain ⟨c', folded, stores', cleaned', clean⟩ := ih (stores.writeBack i .rootfs)
    have cleaned := stores.writeBack_cleaned i .rootfs
    refine ⟨c', ?_, stores', ?_, ?_⟩
    · rw [foldlM_cons, flushed]
      exact folded
    · exact ⟨fun j => (cleaned'.block j).trans (cleaned.block j),
        fun j => (cleaned'.blocknr j).trans (cleaned.blocknr j),
        fun j => (cleaned'.dev j).trans (cleaned.dev j),
        fun j dirt => cleaned.dirt j (cleaned'.dirt j dirt),
        cleaned'.links.trans cleaned.links, cleaned'.size.trans cleaned.size⟩
    · intro j member
      rcases mem_cons.mp member with rfl | later
      · refine Bool.eq_false_of_not_eq_true fun dirt => ?_
        have before := cleaned'.dirt j dirt
        rw [writeBack_clean] at before
        cases before
      · exact clean j later

/-- **After a flush the disk has the words of every block.** -/
theorem flushAllBuffer_disk (stores : Stores allowed c) :
    ∃ c', flushAllBuffer c = some c' ∧ Stores allowed c' ∧ Cleaned c c' ∧
      ∀ b, allowed b (slice c'.rootfsDisk (b * blockSize) blockSize) := by
  obtain ⟨c', flushed, stores', cleaned, clean⟩ := foldlM_flushBuf bufSlots stores
  refine ⟨c', flushed, stores', cleaned, fun b => stores'.disk b fun i dirt => ?_⟩
  rw [clean i (mem_finRange i)] at dirt
  cases dirt

/-! ### What a user of the cache is served -/

/-- The user holds these blocks, and every block has allowed words. -/
structure Serves (diskBlocks : Nat) (allowed : Nat → List Word → Prop) (s : Client) (held : List Nat) :
    Prop where
  size : diskBlocks * blockSize ≤ s.cache.rootfsDiskSize.toNat
  stores : Stores allowed s.cache
  held : s.held.map Prod.fst = held
  few : s.held.length ≤ lruLen - 1
  names : ∀ entry ∈ s.held, entry.1 ≠ 0 ∧ (s.cache.bufTable entry.2).bBlocknr = entry.1
  listed : Listed s.cache (s.held.map Prod.snd)

/-- The words that are allowed after an event. -/
def allowedAfter (allowed : Nat → List Word → Prop) : CacheEvent → Nat → List Word → Prop
  | .putDirt b block => update allowed b fun words => words = slice block 0 blockSize
  | _ => allowed

/-- What is seen at an event has allowed words. -/
inductive Shown (allowed : Nat → List Word → Prop) : CacheEvent → List Seen → Prop
  | get {b : Nat} {words : List Word} (may : allowed b words) : Shown allowed (.get b) [.got b words]
  | putDirt (b : Nat) (block : Nat → Word) : Shown allowed (.putDirt b block) []
  | put (b : Nat) : Shown allowed (.put b) []
  | flush {disk : Nat → Word} (may : ∀ b, allowed b (slice disk (b * blockSize) blockSize)) :
    Shown allowed .flush [.flushed disk]

section Serves

variable {diskBlocks : Nat} {allowed : Nat → List Word → Prop} {s : Client} {held : List Nat} {b : Nat}
  {a : Flat}

theorem Serves.holds (serves : Serves diskBlocks allowed s held) (member : b ∈ held) :
    ∃ i, s.held.lookup b = some i ∧ (b, i) ∈ s.held ∧
      ∀ j, j ∈ (s.others b).map Prod.snd ↔ j ∈ s.held.map Prod.snd ∧ j ≠ i := by
  obtain ⟨i, found⟩ : ∃ i, s.held.lookup b = some i := by
    rw [← serves.held] at member
    obtain ⟨entry, inHeld, rfl⟩ := List.mem_map.mp member
    refine ne_none_iff_exists'.mp fun none => ?_
    have differs := List.lookup_eq_none_iff.mp none entry inHeld
    simp at differs
  have inHeld : (b, i) ∈ s.held := by
    obtain ⟨before, after, split, -⟩ := List.lookup_eq_some_iff.mp found
    rw [split]
    exact mem_append_right _ mem_cons_self
  refine ⟨i, found, inHeld, fun j => ?_⟩
  obtain ⟨positive, number⟩ := serves.names _ inHeld
  simp only [Client.others, List.mem_map, mem_filter, decide_eq_true_eq]
  constructor
  · rintro ⟨entry, ⟨held, other⟩, rfl⟩
    refine ⟨⟨entry, held, rfl⟩, fun same => other ?_⟩
    rw [← (serves.names entry held).2, same, number]
  · rintro ⟨⟨entry, held, rfl⟩, apart⟩
    refine ⟨entry, ⟨held, fun same => apart ?_⟩, rfl⟩
    obtain ⟨positive', number'⟩ := serves.names entry held
    refine serves.stores.unique _ _ (number'.symm ▸ positive') ?_
    rw [number', number, same]

/-- Putting a block back, whatever was assigned to its buffer before. -/
theorem Serves.put (serves : Serves diskBlocks allowed s held) (member : b ∈ held) :
    ∃ i, s.held.lookup b = some i ∧ (s.cache.bufTable i).bBlocknr = b ∧ b ≠ 0 ∧
      ∀ (c : Cache) (allowed' : Nat → List Word → Prop), Stores allowed' c →
        c.links = s.cache.links →
        (∀ j, (c.bufTable j).bBlocknr = (s.cache.bufTable j).bBlocknr) →
        c.rootfsDiskSize = s.cache.rootfsDiskSize →
        ∃ c', putBlockBuffer c i = some c' ∧
          Serves diskBlocks allowed' ⟨c', s.others b⟩ (held.filter fun other => other ≠ b) := by
  obtain ⟨i, found, inHeld, members⟩ := serves.holds member
  obtain ⟨positive, number⟩ := serves.names _ inHeld
  refine ⟨i, found, number, positive, fun c allowed' stores links numbers size => ?_⟩
  have listed : Listed c (s.held.map Prod.snd) := by
    obtain ⟨nodup, cells, linked, complement⟩ := serves.listed
    exact ⟨nodup, cells, links ▸ linked, complement⟩
  have fewer : (s.others b).Sublist s.held := filter_sublist
  obtain ⟨c', put, gave⟩ := putBlockBuffer_gave listed (mem_map_of_mem inHeld)
    (by simpa using serves.few) ((fewer.map _).nodup listed.nodup) members
  refine ⟨c', put, ?_, gave.same.stores stores, ?_, ?_, ?_, gave.listed⟩
  · show _ ≤ c'.rootfsDiskSize.toNat
    rw [gave.same.size, size]
    exact serves.size
  · show (s.others b).map Prod.fst = _
    rw [← serves.held, List.filter_map]
    rfl
  · exact fewer.length_le.trans serves.few
  · intro entry inOthers
    obtain ⟨positive', number'⟩ := serves.names entry (fewer.subset inOthers)
    refine ⟨positive', ?_⟩
    show (c'.bufTable entry.2).bBlocknr = entry.1
    rw [gave.same.blocknr, numbers, number']

/-- **Every step of the user is served**, with words that are allowed. -/
theorem Serves.step (event : CacheEvent) (serves : Serves diskBlocks allowed s a.held)
    (legal : Legal diskBlocks a event) :
    ∃ s' a', clientStep s event = some s' ∧ flatStep a event = some a' ∧
      Shown allowed event (clientSeen s event) ∧
      Serves diskBlocks (allowedAfter allowed event) s' a'.held := by
  cases event with
  | get b =>
    obtain ⟨positive, small, fresh, few⟩ := legal
    have count : s.held.length = a.held.length := by
      rw [← serves.held, length_map]
    have inside : b * blockSize + blockSize ≤ s.cache.rootfsDiskSize.toNat := by
      refine le_trans ?_ serves.size
      rw [← Nat.succ_mul]
      exact Nat.mul_le_mul_right _ small
    obtain ⟨i, c', got, spec⟩ := getBlockBuffer_took serves.stores serves.listed
      (by rw [length_map, count]; exact few) inside (by
        intro i member number
        obtain ⟨entry, held, rfl⟩ := mem_map.mp member
        refine fresh ?_
        rw [← serves.held, ← number, (serves.names entry held).2]
        exact mem_map_of_mem held)
    have stepped : clientStep s (.get b) = some ⟨c', (b, i) :: s.held⟩ := by
      simp only [clientStep, got, bind_eq_bind, bind_some]
    have words := spec.stores.contents i (by rw [spec.blocknr]; omega)
    rw [spec.blocknr] at words
    refine ⟨_, _, stepped, rfl, ?_, ?_, spec.stores, ?_, ?_, ?_, spec.listed⟩
    · simp only [clientSeen, stepped, head?_cons, map_some, toList_some]
      exact .get words
    · show _ ≤ c'.rootfsDiskSize.toNat
      rw [spec.size]
      exact serves.size
    · show b :: s.held.map Prod.fst = b :: a.held
      rw [serves.held]
    · show s.held.length + 1 ≤ lruLen - 1
      rw [count]
      exact few
    · intro entry member
      rcases mem_cons.mp member with rfl | held
      · exact ⟨by omega, spec.blocknr⟩
      · obtain ⟨positive', number⟩ := serves.names entry held
        refine ⟨positive', ?_⟩
        have apart : entry.2 ≠ i := fun same =>
          (nodup_cons.mp spec.listed.nodup).1 (same ▸ mem_map_of_mem held)
        rw [(spec.others _ apart).1, number]
  | putDirt b block =>
    obtain ⟨i, found, number, positive, put⟩ := serves.put legal
    have used : (s.cache.bufTable i).bBlocknr ≠ 0 := number.symm ▸ positive
    have assigned : Assigned s.cache i block
        ((s.cache.updateBuf i fun buf => { buf with block }).updateBuf i fun buf =>
          { buf with bDirt := true }) :=
      ⟨by simp only [updateBuf_self], fun j apart => by simp only [updateBuf_of_ne _ _ apart],
        rfl, rfl⟩
    have stores : Stores (update allowed (s.cache.bufTable i).bBlocknr fun words =>
        words = slice block 0 blockSize) _ := serves.stores.assign used assigned rfl
    rw [number] at stores
    obtain ⟨c', gave, serves'⟩ := put _ _ stores
      ((links_updateBuf _ _ _ rfl rfl).trans (links_updateBuf _ _ _ rfl rfl)) assigned.blocknr rfl
    have stepped : clientStep s (.putDirt b block) = some ⟨c', s.others b⟩ := by
      simp only [clientStep, found, putBlockBufferDirt, gave, bind_eq_bind, bind_some]
    exact ⟨_, _, stepped, rfl, .putDirt b block, serves'⟩
  | put b =>
    obtain ⟨i, found, -, -, put⟩ := serves.put legal
    obtain ⟨c', gave, serves'⟩ := put s.cache allowed serves.stores rfl (fun _ => rfl) rfl
    have stepped : clientStep s (.put b) = some ⟨c', s.others b⟩ := by
      simp only [clientStep, found, gave, bind_eq_bind, bind_some]
    exact ⟨_, _, stepped, rfl, .put b, serves'⟩
  | flush =>
    obtain ⟨c', flushed, stores, cleaned, disk⟩ := flushAllBuffer_disk serves.stores
    have stepped : clientStep s .flush = some ⟨c', s.held⟩ := by
      simp only [clientStep, flushed, bind_eq_bind, bind_some]
    refine ⟨_, _, stepped, rfl, ?_, ?_, stores, serves.held, serves.few, ?_, ?_⟩
    · simp only [clientSeen, stepped]
      exact .flush disk
    · show _ ≤ c'.rootfsDiskSize.toNat
      rw [cleaned.size]
      exact serves.size
    · intro entry member
      obtain ⟨positive, number⟩ := serves.names entry member
      exact ⟨positive, (cleaned.blocknr entry.2).trans number⟩
    · obtain ⟨nodup, cells, linked, complement⟩ := serves.listed
      refine ⟨nodup, cells, ?_, complement⟩
      show Linked c'.links cells
      rw [cleaned.links]
      exact linked

end Serves

/-! ### The simulation -/

/-- The concrete and the flat state. -/
structure Related (diskBlocks : Nat) (s : Client) (a : Flat) : Prop where
  size : diskBlocks * blockSize ≤ s.cache.rootfsDiskSize.toNat
  coherent : Coherent s.cache a.array
  held : s.held.map Prod.fst = a.held
  few : s.held.length ≤ lruLen - 1
  names : ∀ entry ∈ s.held, entry.1 ≠ 0 ∧ (s.cache.bufTable entry.2).bBlocknr = entry.1
  listed : Listed s.cache (s.held.map Prod.snd)

section Related

variable {diskBlocks : Nat} {s : Client} {a : Flat} {b : Nat}

theorem ofArray_of_allowedAfter {array : Nat → Word} {held : List Nat} {event : CacheEvent} {a : Flat}
    (stepped : flatStep ⟨array, held⟩ event = some a) {words : List Word}
    (may : allowedAfter (ofArray array) event b words) : ofArray a.array b words := by
  cases event with
  | putDirt changed block =>
    obtain rfl := Option.some.inj stepped
    by_cases here : b = changed
    · subst here
      rw [allowedAfter, update_self] at may
      rw [may, ofArray, slice_copyWords]
    · rw [allowedAfter, update_of_ne here] at may
      rw [may, ofArray, slice_copyBlock_of_ne _ _ here]
  | get _ =>
    obtain rfl := Option.some.inj stepped
    exact may
  | put _ =>
    obtain rfl := Option.some.inj stepped
    exact may
  | flush =>
    obtain rfl := Option.some.inj stepped
    exact may

theorem Shown.eq_flatSeen {event : CacheEvent} {seen : List Seen}
    (shown : Shown (ofArray a.array) event seen) : seen = flatSeen a event := by
  cases shown with
  | get may => rw [flatSeen, may]
  | putDirt b block => rfl
  | put b => rfl
  | @flush disk may =>
    have whole : disk = a.array := by
      funext k
      have place : k / blockSize * blockSize + k % blockSize = k := Nat.div_add_mod' k blockSize
      have same := eq_of_slice_eq (may (k / blockSize)) (Nat.mod_lt k (by decide : 0 < blockSize))
      rwa [place] at same
    rw [flatSeen, whole]

/-- **Every step of the user is matched.** -/
theorem Related.step (event : CacheEvent) (related : Related diskBlocks s a)
    (legal : Legal diskBlocks a event) :
    ∃ s' a', clientStep s event = some s' ∧ flatStep a event = some a' ∧
      clientSeen s event = flatSeen a event ∧ Related diskBlocks s' a' := by
  have serves : Serves diskBlocks (ofArray a.array) s a.held :=
    ⟨related.size, related.coherent.stores, related.held, related.few, related.names, related.listed⟩
  obtain ⟨s', a', stepped, flat, shown, serves'⟩ := serves.step event legal
  refine ⟨s', a', stepped, flat, shown.eq_flatSeen, serves'.size, ?_, serves'.held, serves'.few,
    serves'.names, serves'.listed⟩
  exact (serves'.stores.mono fun b words may => ofArray_of_allowedAfter flat may).coherent

end Related

/-! ### Every run -/

/-- The number of whole blocks on the disk. -/
def diskBlocks (c : Cache) : Nat := c.rootfsDiskSize.toNat / blockSize

theorem bufSlots_eq : bufSlots = [0, 1, 2, 3] := rfl

theorem initBuf_unused (c : Cache) (i : BufNr) :
    ((initBuf c).bufTable i).bBlocknr = 0 ∧ ((initBuf c).bufTable i).bDirt = false := by
  rw [initBuf, bufSlots_eq]
  match i with
  | 0 => exact ⟨rfl, rfl⟩
  | 1 => exact ⟨rfl, rfl⟩
  | 2 => exact ⟨rfl, rfl⟩
  | 3 => exact ⟨rfl, rfl⟩

theorem initBuf_linked (c : Cache) : Linked (initBuf c).links [0, 1, 2, 3] := by
  rw [initBuf, bufSlots_eq]
  exact ⟨⟨rfl, rfl, rfl, rfl, rfl⟩, ⟨rfl, rfl, rfl, rfl, rfl⟩⟩

theorem initBuf_related (c : Cache) : Related (diskBlocks c) ⟨initBuf c, []⟩ ⟨c.rootfsDisk, []⟩ := by
  have unused (i : BufNr) (used : ((initBuf c).bufTable i).bBlocknr ≠ 0) : False :=
    used (initBuf_unused c i).1
  refine ⟨?_, ⟨?_, ?_, ?_, ?_, ?_, ?_⟩, rfl, Nat.zero_le _, ?_, nodup_nil, _,
    initBuf_linked c, fun i => ?_⟩
  · exact Nat.div_mul_le_self ..
  · exact fun i used => (unused i used).elim
  · exact fun i _ used => (unused i used).elim
  · intro i dirt
    rw [(initBuf_unused c i).2] at dirt
    cases dirt
  · exact fun i used => (unused i used).elim
  · exact fun i used => (unused i used).elim
  · exact fun _ _ => rfl
  · exact fun entry member => absurd member not_mem_nil
  · rw [← bufSlots_eq]
    simp [bufSlots]

/-- **The block cache refines a flat array of words.** Every get succeeds and shows the words last
put dirty, or those that were on the disk; a flush leaves the array on the disk. -/
theorem cache_refines_flat (c : Cache) (events : List CacheEvent)
    (legal : Meets flatStep (Legal (diskBlocks c)) ⟨c.rootfsDisk, []⟩ events) :
    ∃ s a log,
      runFrom (logged clientStep clientSeen) (⟨initBuf c, []⟩, []) events = some (s, log) ∧
      runFrom (logged flatStep flatSeen) (⟨c.rootfsDisk, []⟩, []) events = some (a, log) := by
  obtain ⟨s, a, log, ran, ran', -⟩ := logged_simulates (Related (diskBlocks c))
    (fun s a event related legal => related.step event legal) events [] (initBuf_related c) legal
  exact ⟨s, a, log, ran, ran'⟩

/-- A disk of fifty blocks whose words count up, before `init_buf`. -/
def bareCache : Cache where
  bufTable _ := ⟨fun _ => 7#32, some 0, some 0, 9, none, true, 5⟩
  rear := none
  front := none
  rootfsDisk k := BitVec.ofNat 32 k
  rootfsDiskSize := 51200#32

/-- Three blocks are held at once, two of them are put dirty, enough others follow to write both
back, and the first is got again. -/
def sixBlocks : List CacheEvent :=
  [.get 1, .get 2, .get 3, .putDirt 2 fun _ => 5#32, .put 1, .putDirt 3 fun k => BitVec.ofNat 32 k,
    .get 4, .get 5, .get 49, .put 4, .put 49, .put 5, .flush, .get 2, .get 1, .put 2]

theorem sixBlocks_refines :
    ∃ s a log,
      runFrom (logged clientStep clientSeen) (⟨initBuf bareCache, []⟩, []) sixBlocks =
        some (s, log) ∧
      runFrom (logged flatStep flatSeen) (⟨bareCache.rootfsDisk, []⟩, []) sixBlocks =
        some (a, log) :=
  cache_refines_flat bareCache sixBlocks (by decide)

end Winix.Fs
