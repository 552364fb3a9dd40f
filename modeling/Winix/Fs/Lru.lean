/-
**The list of the buffers nobody holds.**

Users of the block cache get a block and put its buffer back, in any order. `rm_lru` takes a buffer
off the list even if somebody holds it, `put_block_buffer` puts it on the list even if somebody else
still holds it, and `dequeue_buf` and `enqueue_buf` do not know an empty list.

* `getBlockBuffer_links`: what `get_block_buffer` does to the pointers of the list, whatever they are;
* **`lru_list_iff`**: it stays one if and only if nobody held the buffer before and two buffers were on
  it;
* **`failed_read_poisons`**: a block that is not on the disk is got once it has been asked for.
-/

import Winix.Fs.Flat

namespace Winix.Fs

open Kernel Lib List Option

/-! ### Holders -/

/-- The cache, and the buffers that are held. A buffer is there once for each of its holders. -/
structure Holders where
  cache : Cache
  held : List BufNr

/-- What happens to the buffers. -/
inductive LruEvent
  | get (blocknr : Nat)
  | put (tbuf : BufNr)

/-- A call of `get_block_buffer` or `put_block_buffer`. -/
def lruStep (s : Holders) : LruEvent → Option Holders
  | .get blocknr => (getBlockBuffer s.cache blocknr .rootfs).map fun got =>
      ⟨got.2, got.1.toList ++ s.held⟩
  | .put tbuf => (putBlockBuffer s.cache tbuf).map fun c => ⟨c, s.held.erase tbuf⟩

/-- From the rear to the front, the list has the buffers nobody holds, each once. -/
def Holders.LruRight (s : Holders) : Prop :=
  ∃ cells, Linked s.cache.links cells ∧ ∀ i, i ∈ cells ↔ i ∉ s.held

/-- The buffer that a block is in. -/
def bufferOf (c : Cache) (blocknr : Nat) : Option BufNr :=
  bufSlots.find? fun i => (c.bufTable i).bBlocknr = blocknr

/-- Nobody holds the buffer that the block is in, and two buffers are on the list. What is put back is
held. -/
def LruFits (s : Holders) : LruEvent → Prop
  | .get blocknr => (∀ i, bufferOf s.cache blocknr = some i → i ∉ s.held) ∧ s.held.length + 2 ≤ lruLen
  | .put tbuf => tbuf ∈ s.held

instance (s : Holders) : DecidablePred (LruFits s)
  | .get blocknr =>
    inferInstanceAs (Decidable ((∀ i, bufferOf s.cache blocknr = some i → i ∉ s.held) ∧ _))
  | .put tbuf => inferInstanceAs (Decidable (tbuf ∈ s.held))

/-- The list is right after a get, and after the first put that may follow. -/
def Holders.GetLasts (s : Holders) (blocknr : Nat) : Prop :=
  ∃ s', lruStep s (.get blocknr) = some s' ∧ s'.LruRight ∧
    ∀ i ∈ s'.held, ∃ s'', lruStep s' (.put i) = some s'' ∧ s''.LruRight

/-! ### What a get does to the pointers -/

section Links

theorem blkDevIoWrite_links (c : Cache) (buf : Nat → Word) (off len : Nat) :
    (blkDevIoWrite c buf off len).2.links = c.links := by
  unfold blkDevIoWrite
  split_ifs
  · rfl
  · exact Links.ext rfl rfl rfl rfl

theorem writeBack_links (c : Cache) (i : BufNr) (dev : Device) :
    (writeBack c i dev).links = c.links := by
  unfold writeBack
  split_ifs
  · rw [links_updateBuf _ _ _ rfl rfl, blockIoWrite, blkDevIoWrite_links]
  · rfl

theorem blockIoRead_links (c : Cache) (i : BufNr) (dev : Device) :
    (blockIoRead c i dev).2.links = c.links := by
  unfold blockIoRead
  dsimp only
  rw [links_updateBuf _ _ _ rfl rfl]

/-- **What a get does to the pointers**, in each of its cases. -/
inductive GetLinks (c : Cache) (blocknr : Nat) : Option BufNr × Cache → Prop
  | found {i : BufNr} {c' : Cache} (there : bufferOf c blocknr = some i)
      (links : c'.links = c.links.remove i) : GetLinks c blocknr (some i, c')
  | none (absent : bufferOf c blocknr = none) (empty : c.rear = none) : GetLinks c blocknr (none, c)
  | loaded {i : BufNr} {c' : Cache} (absent : bufferOf c blocknr = none) (rear : c.rear = some i)
      (links : c'.links = c.links.takeRear i) : GetLinks c blocknr (some i, c')
  | failed {i front : BufNr} {c' : Cache} (absent : bufferOf c blocknr = none) (rear : c.rear = some i)
      (first : c.front = some front) (links : c'.links = (c.links.takeRear i).addFront front i) :
      GetLinks c blocknr (none, c')

theorem getBlockBuffer_links (c : Cache) (blocknr : Nat)
    (front : ∀ i, c.rear = some i → ∃ first, c.front = some first) :
    ∃ result, getBlockBuffer c blocknr .rootfs = some result ∧ GetLinks c blocknr result := by
  unfold getBlockBuffer
  cases there : bufferOf c blocknr with
  | some i =>
    rw [show (bufSlots.find? fun i => (c.bufTable i).bBlocknr = blocknr) = some i from there]
    exact ⟨_, rfl, .found there (links_updateBuf _ _ _ rfl rfl)⟩
  | none =>
    rw [show (bufSlots.find? fun i => (c.bufTable i).bBlocknr = blocknr) = none from there]
    cases rear : c.rear with
    | none =>
      simp only [dequeueBuf, rear]
      exact ⟨_, rfl, .none there rear⟩
    | some i =>
      obtain ⟨first, front⟩ := front i rear
      simp only [dequeueBuf, rear]
      have relabelled : (((writeBack (c.setLinks (c.links.takeRear i)) i .rootfs).updateBuf i fun buf =>
          { buf with bBlocknr := blocknr }).links) = c.links.takeRear i := by
        rw [links_updateBuf _ _ _ rfl rfl, writeBack_links, links_setLinks]
      generalize ((writeBack (c.setLinks (c.links.takeRear i)) i .rootfs).updateBuf i fun buf =>
          { buf with bBlocknr := blocknr }) = c₂ at relabelled
      have read := (blockIoRead_links c₂ i .rootfs).trans relabelled
      generalize blockIoRead c₂ i .rootfs = answer at read
      obtain ⟨ret, c₃⟩ := answer
      dsimp only at read ⊢
      by_cases failed : ret ≠ blockSize
      · have queued : enqueueBuf c₃ i = some (c₃.setLinks (c₃.links.addFront first i)) := by
          rw [enqueueBuf, show c₃.front = some first from (congrArg Links.front read).trans front]
        rw [if_pos failed, queued]
        refine ⟨_, rfl, .failed there rear front ?_⟩
        rw [links_setLinks, read]
      · rw [if_neg failed]
        refine ⟨_, rfl, .loaded there rear ?_⟩
        -- the pointers of the buffer are null already
        have next : (c₃.bufTable i).next = Option.none :=
          (congrFun (congrArg Links.next read) i).trans (Function.update_self ..)
        have prev : (c₃.bufTable i).prev = Option.none :=
          (congrFun (congrArg Links.prev read) i).trans (Function.update_self ..)
        rw [← read]
        exact links_updateBuf _ _ _ next.symm prev.symm

end Links

/-! ### Calls that keep the list -/

section Steps

variable {c : Cache} {s : Holders} {blocknr : Nat} {i : BufNr} {held : List BufNr}

theorem Listed.right (listed : Listed s.cache s.held) : s.LruRight := listed.list

theorem Listed.links (listed : Listed s.cache s.held) (blocknr : Nat) :
    ∃ result, lruStep s (.get blocknr) = some ⟨result.2, result.1.toList ++ s.held⟩ ∧
      GetLinks s.cache blocknr result := by
  obtain ⟨-, cells, linked, -⟩ := listed
  obtain ⟨result, got, links⟩ := getBlockBuffer_links s.cache blocknr fun i rear => by
    have front : s.cache.front = cells.reverse.head? := linked.backward.head?_eq
    obtain ⟨rest, rfl⟩ := List.head?_eq_some_iff.mp (linked.forward.head?_eq.symm.trans rear)
    exact ⟨_, front.trans (by rw [head?_reverse, getLast?_cons])⟩
  exact ⟨result, by rw [lruStep, got]; rfl, links⟩

/-- **A get keeps the list**, if nobody holds the buffer and two are on the list. -/
theorem Listed.get (listed : Listed s.cache s.held) (fits : LruFits s (.get blocknr)) :
    ∃ s', lruStep s (.get blocknr) = some s' ∧ Listed s'.cache s'.held ∧
      s'.held.length + 1 ≤ lruLen := by
  obtain ⟨free, few⟩ := fits
  obtain ⟨result, stepped, links⟩ := listed.links blocknr
  refine ⟨_, stepped, ?_⟩
  cases links with
  | found there links => exact ⟨listed.remove (free _ there) links, by simp; omega⟩
  | none absent empty => exact ⟨listed, by simp; omega⟩
  | @loaded i c' absent rear links =>
    obtain ⟨j, -, rear', taken⟩ := listed.takeRear (by omega)
    obtain rfl : i = j := Option.some.inj (rear.symm.trans rear')
    exact ⟨taken c' links, by simp; omega⟩
  | @failed i front' c' absent rear first' links =>
    obtain ⟨j, fresh, rear', taken⟩ := listed.takeRear (by omega)
    obtain rfl : i = j := Option.some.inj (rear.symm.trans rear')
    have listed' := taken (s.cache.setLinks (s.cache.links.takeRear i)) (links_setLinks ..)
    obtain ⟨front'', first'', added⟩ := listed'.addFront mem_cons_self (by rw [length_cons]; omega)
      listed.nodup fun j => by
        by_cases here : j = i
        · simp [here, fresh]
        · simp [here]
    obtain rfl : front' = front'' := Option.some.inj (first'.symm.trans first'')
    refine ⟨added c' ?_, by simp; omega⟩
    rw [links, links_setLinks]

/-- **A put keeps the list.** -/
theorem Listed.put (listed : Listed s.cache s.held) (few : s.held.length + 1 ≤ lruLen)
    (held : i ∈ s.held) :
    ∃ s', lruStep s (.put i) = some s' ∧ Listed s'.cache s'.held ∧ s'.held.length + 1 ≤ lruLen := by
  obtain ⟨c', put, gave⟩ :=
    putBlockBuffer_gave listed held (by omega) (listed.nodup.erase i) fun j => by
    rw [listed.nodup.mem_erase_iff, and_comm]
  refine ⟨⟨c', s.held.erase i⟩, by rw [lruStep, put]; rfl, gave.listed, ?_⟩
  have := length_erase_of_mem held
  show (s.held.erase i).length + 1 ≤ lruLen
  omega

theorem LruRight.empty {s : Holders} (right : s.LruRight) (all : ∀ i, i ∈ s.held) :
    s.cache.front = none ∧ s.cache.rear = none := by
  obtain ⟨cells, linked, complement⟩ := right
  obtain rfl : cells = [] := eq_nil_iff_forall_not_mem.mpr fun i member =>
    (complement i).mp member (all i)
  exact ⟨linked.backward, linked.forward⟩

theorem putBlockBuffer_none (front : c.front = none) (i : BufNr) : putBlockBuffer c i = none := by
  rw [putBlockBuffer, enqueueBuf, front]
  rfl

/-- A buffer that somebody else holds is on the list when it has been put back. -/
theorem held_twice_listed {s' s'' : Holders} (twice : i ∈ s'.held.erase i)
    (put : lruStep s' (.put i) = some s'') : ¬ s''.LruRight := by
  rintro ⟨cells, linked, complement⟩
  obtain ⟨c', came, rfl⟩ := map_eq_some_iff.mp put
  obtain ⟨first, -, links⟩ := putBlockBuffer_links came
  have front : c'.front = cells.reverse.head? := linked.backward.head?_eq
  have first : c'.front = some i := by
    show c'.links.front = some i
    rw [links]
    rfl
  have listed : i ∈ cells := mem_reverse.mp (mem_of_mem_head? (front.symm.trans first))
  exact (complement i).mp listed twice

theorem Listed.last (listed : Listed c held) (most : held.length + 1 = lruLen) :
    ∃ i, i ∉ held ∧ c.rear = some i ∧ c.front = some i ∧ c.links.next i = none ∧
      ∀ j, j ∈ i :: held := by
  obtain ⟨nodup, cells, linked, complement⟩ := listed
  have count := length_add_length linked.nodup nodup complement
  obtain ⟨i, rfl⟩ := length_eq_one_iff.mp (by omega : cells.length = 1)
  have fresh : i ∉ held := (complement i).mp (mem_singleton.mpr rfl)
  refine ⟨i, fresh, linked.forward.1, linked.backward.1, linked.forward.2, fun j => ?_⟩
  by_cases inHeld : j ∈ held
  · exact mem_cons_of_mem _ inHeld
  · rw [mem_singleton.mp ((complement j).mpr inHeld)]
    exact mem_cons_self

section

variable (listed : Listed s.cache s.held)
include listed

/-- A get that lasts, with what it does to the pointers. -/
theorem Listed.links_of_lasts (lasts : s.GetLasts blocknr) : ∃ result, GetLinks s.cache blocknr result ∧
    (⟨result.2, result.1.toList ++ s.held⟩ : Holders).LruRight ∧
    ∀ i ∈ result.1.toList ++ s.held, ∃ s'',
      lruStep ⟨result.2, result.1.toList ++ s.held⟩ (.put i) = some s'' ∧ s''.LruRight := by
  obtain ⟨s', stepped, right, puts⟩ := lasts
  obtain ⟨result, got, links⟩ := listed.links blocknr
  obtain rfl := Option.some.inj (stepped.symm.trans got)
  exact ⟨result, links, right, puts⟩

theorem Listed.free_of_lasts (lasts : s.GetLasts blocknr) (there : bufferOf s.cache blocknr = some i) :
    i ∉ s.held := by
  intro held
  obtain ⟨result, links, -, puts⟩ := listed.links_of_lasts lasts
  cases links with
  | @found j c' there' links =>
    obtain rfl : i = j := Option.some.inj (there.symm.trans there')
    obtain ⟨s'', put, right⟩ := puts i mem_cons_self
    refine held_twice_listed ?_ put right
    show i ∈ (i :: s.held).erase i
    rw [erase_cons_head]
    exact held
  | none absent => cases absent.symm.trans there
  | loaded absent => cases absent.symm.trans there
  | failed absent => cases absent.symm.trans there

/-- **The last buffer must not be taken**: the list or a put does not survive it. -/
theorem Listed.last_taken (most : s.held.length + 1 = lruLen) : ¬ s.GetLasts blocknr := by
  intro lasts
  obtain ⟨i, fresh, rear, front, next, all⟩ := listed.last most
  obtain ⟨result, links, right, puts⟩ := listed.links_of_lasts lasts
  cases links with
  | @found j c' there links =>
    obtain ⟨s'', put, -⟩ := puts j mem_cons_self
    obtain rfl := (mem_cons.mp (all j)).resolve_right (listed.free_of_lasts lasts there)
    rw [lruStep, putBlockBuffer_none (LruRight.empty right all).1] at put
    cases put
  | none absent empty =>
    rw [rear] at empty
    cases empty
  | @loaded j c' absent rear' links =>
    obtain rfl : i = j := Option.some.inj (rear.symm.trans rear')
    have stays : c'.front = some i := (congrArg Links.front links).trans front
    rw [(LruRight.empty right all).1] at stays
    cases stays
  | @failed j first c' absent rear' first' links =>
    obtain rfl : i = j := Option.some.inj (rear.symm.trans rear')
    have gone : c'.rear = Option.none := (congrArg Links.rear links).trans next
    obtain ⟨cells, linked, complement⟩ := right
    have listed' := (complement i).mpr fresh
    have head : c'.rear = cells.head? := linked.forward.head?_eq
    rw [gone] at head
    rw [List.head?_eq_none_iff.mp head.symm] at listed'
    exact absurd listed' not_mem_nil

theorem Listed.all_held (all : ∀ i, i ∈ s.held) : ¬ s.GetLasts blocknr := by
  intro lasts
  obtain ⟨front, rear⟩ := LruRight.empty listed.right all
  obtain ⟨result, links, -, puts⟩ := listed.links_of_lasts lasts
  cases links with
  | @found j c' there links => exact listed.free_of_lasts lasts there (all j)
  | none absent empty =>
    obtain ⟨s'', put, -⟩ := puts 0 (all 0)
    rw [lruStep, putBlockBuffer_none front] at put
    cases put
  | loaded absent rear' links =>
    rw [rear] at rear'
    cases rear'
  | failed absent rear' first links =>
    rw [rear] at rear'
    cases rear'

/-- **A get that lasts** is of a buffer nobody holds, and leaves one on the list. -/
theorem Listed.fits_of_lasts (lasts : s.GetLasts blocknr) : LruFits s (.get blocknr) := by
  obtain ⟨cells, linked, complement⟩ := listed.list
  have count := length_add_length linked.nodup listed.nodup complement
  have few : s.held.length + 2 ≤ lruLen := by
    by_contra many
    rcases Nat.lt_or_ge s.held.length lruLen with last | all
    · exact listed.last_taken (by omega) lasts
    · refine listed.all_held (fun i => ?_) lasts
      by_contra fresh
      have listed' := (complement i).mpr fresh
      rw [length_eq_zero_iff.mp (by omega : cells.length = 0)] at listed'
      exact absurd listed' not_mem_nil
  exact ⟨fun i there => listed.free_of_lasts lasts there, few⟩

theorem Listed.lasts_of_fits (fits : LruFits s (.get blocknr)) : s.GetLasts blocknr := by
  obtain ⟨s', stepped, listed', few⟩ := listed.get fits
  refine ⟨s', stepped, listed'.right, fun i held => ?_⟩
  obtain ⟨s'', put, listed'', -⟩ := listed'.put few held
  exact ⟨s'', put, listed''.right⟩

theorem Listed.run {events : List LruEvent} (few : s.held.length + 1 ≤ lruLen)
    (meets : Meets lruStep LruFits s events) :
    ∃ s', runFrom lruStep s events = some s' ∧ s'.LruRight := by
  induction events generalizing s with
  | nil => exact ⟨s, rfl, listed.right⟩
  | cons event events ih =>
    obtain ⟨fits, rest⟩ := meets
    obtain ⟨s', stepped, listed', few'⟩ : ∃ s', lruStep s event = some s' ∧ Listed s'.cache s'.held ∧
        s'.held.length + 1 ≤ lruLen := by
      cases event with
      | get blocknr => exact listed.get fits
      | put i => exact listed.put few fits
    rw [stepped] at rest
    obtain ⟨s'', ran, right⟩ := ih listed' few' rest
    exact ⟨s'', runFrom_cons.mpr ⟨s', stepped, ran⟩, right⟩

end

end Steps

/-- **The list stays a list** as long as nobody gets a buffer that is held, and the last one stays
on the list. -/
theorem lru_list_iff (c : Cache) :
    (∀ (s : Holders) (blocknr : Nat), Listed s.cache s.held →
      (s.GetLasts blocknr ↔ LruFits s (.get blocknr))) ∧
    ∀ events : List LruEvent, Meets lruStep LruFits ⟨initBuf c, []⟩ events →
      ∃ s, runFrom lruStep ⟨initBuf c, []⟩ events = some s ∧ s.LruRight := by
  refine ⟨fun s blocknr listed => ⟨listed.fits_of_lasts, listed.lasts_of_fits⟩, fun events meets => ?_⟩
  have start : Listed (initBuf c) [] := (initBuf_related c).listed
  exact Listed.run (s := ⟨initBuf c, []⟩) start (Nat.succ_le_succ (Nat.zero_le 3)) meets

/-- Three blocks are held at once, and put back in another order. -/
theorem three_held_right :
    ∃ s, runFrom lruStep ⟨initBuf bareCache, []⟩
      [.get 5, .get 6, .put 0, .get 7, .get 60, .get 5, .put 2, .put 0, .put 1] = some s ∧ s.LruRight :=
  (lru_list_iff bareCache).2 _ (by decide)

/-- **Buffers that are lost**: a block is got twice, and its buffer is on the list although it is
held. When four blocks are held, the front of the list is the buffer that was taken last. -/
theorem held_buffer_listed :
    (∃ s s', runFrom lruStep ⟨initBuf bareCache, []⟩ [.get 5, .get 5] = some s ∧
      lruStep s (.put 0) = some s' ∧ ¬ s'.LruRight) ∧
    ∃ s, runFrom lruStep ⟨initBuf bareCache, []⟩ [.get 5, .get 6, .get 7, .get 8] = some s ∧
      ¬ s.LruRight := by
  constructor
  · obtain ⟨s, ran, came, twice⟩ := exists_of_any (by decide :
      (runFrom lruStep ⟨initBuf bareCache, []⟩ [.get 5, .get 5]).any (fun s =>
        decide ((lruStep s (.put 0)).isSome ∧ (0 : BufNr) ∈ s.held.erase 0)) = true)
    obtain ⟨s', put⟩ := isSome_iff_exists.mp came
    exact ⟨s, s', ran, put, held_twice_listed twice put⟩
  · obtain ⟨s, ran, facts⟩ := exists_of_any (by decide :
      (runFrom lruStep ⟨initBuf bareCache, []⟩ [.get 5, .get 6, .get 7, .get 8]).any (fun s =>
        decide ((∀ i, i ∈ s.held) ∧ s.cache.front = some 3)) = true)
    obtain ⟨all, front⟩ := facts
    refine ⟨s, ran, fun right => ?_⟩
    rw [(LruRight.empty right all).1] at front
    cases front

/-! ### Blocks that are not on the disk -/

/-- A get of the block returns null, now and after any calls that follow, and every block of the disk is
got with the words that it had. -/
def Holders.Refuses (s : Holders) (blocknr : Nat) : Prop :=
  ∃ c, getBlockBuffer s.cache blocknr .rootfs = some (none, c) ∧
    (∀ events s', runFrom lruStep ⟨c, s.held⟩ events = some s' →
      ∃ c', getBlockBuffer s'.cache blocknr .rootfs = some (none, c')) ∧
    ∀ b < diskBlocks s.cache, ∃ i c', getBlockBuffer c b .rootfs = some (some i, c') ∧
      slice (c'.bufTable i).block 0 blockSize = shown s.cache b

section Refuses

variable {c c' : Cache} {blocknr : Nat} {i : BufNr}

theorem getBlockBuffer_there (there : bufferOf c blocknr = some i) :
    ∃ c', getBlockBuffer c blocknr .rootfs = some (some i, c') := by
  unfold getBlockBuffer
  rw [show (bufSlots.find? fun i => (c.bufTable i).bBlocknr = blocknr) = some i from there]
  exact ⟨_, rfl⟩

theorem bufferOf_isSome (number : (c.bufTable i).bBlocknr = blocknr) :
    ∃ j, bufferOf c blocknr = some j := by
  refine ne_none_iff_exists'.mp fun absent => ?_
  have differs := List.find?_eq_none.mp absent i (mem_finRange i)
  simp [number] at differs

/-- **A block that could not be read is in a buffer afterwards**: the number has been assigned
before. -/
theorem getBlockBuffer_labels (absent : bufferOf c blocknr = none) (rear : c.rear = some i)
    (got : getBlockBuffer c blocknr .rootfs = some (none, c')) : ∃ j, bufferOf c' blocknr = some j := by
  unfold getBlockBuffer at got
  rw [show (bufSlots.find? fun i => (c.bufTable i).bBlocknr = blocknr) = none from absent] at got
  simp only [dequeueBuf, rear] at got
  have labelled : (((writeBack (c.setLinks (c.links.takeRear i)) i .rootfs).updateBuf i fun buf =>
      { buf with bBlocknr := blocknr }).bufTable i).bBlocknr = blocknr := by rw [updateBuf_self]
  generalize ((writeBack (c.setLinks (c.links.takeRear i)) i .rootfs).updateBuf i fun buf =>
    { buf with bBlocknr := blocknr }) = c₂ at labelled got
  have read : (((blockIoRead c₂ i .rootfs).2.bufTable i).bBlocknr) = blocknr := by
    rw [← labelled, blockIoRead, updateBuf_self]
  generalize blockIoRead c₂ i .rootfs = answer at read got
  obtain ⟨ret, c₃⟩ := answer
  dsimp only at read got
  split_ifs at got
  · obtain ⟨c₄, queued, same⟩ := map_eq_some_iff.mp got
    obtain rfl := (Prod.mk.inj same).2
    refine bufferOf_isSome (i := i) ?_
    unfold enqueueBuf at queued
    split at queued
    · cases queued
    · obtain rfl := Option.some.inj queued
      exact read
  · cases got

theorem getBlockBuffer_none (absent : bufferOf c blocknr = none) (rear : c.rear = none) :
    getBlockBuffer c blocknr .rootfs = some (none, c) := by
  unfold getBlockBuffer
  rw [show (bufSlots.find? fun i => (c.bufTable i).bBlocknr = blocknr) = none from absent]
  simp only [dequeueBuf, rear]

end Refuses

/-- **A block that is not on the disk is never refused for good**: when it could not be read, its number
stays at the buffer that was taken for it, and the next get returns that buffer. -/
theorem failed_read_poisons (s : Holders) (blocknr : Nat) (size : s.cache.rootfsDiskSize = 51200#32)
    (_beyond : diskBlocks s.cache ≤ blocknr) : ¬ s.Refuses blocknr := by
  rintro ⟨c, got, later, blocks⟩
  cases there : bufferOf s.cache blocknr with
  | some i =>
    obtain ⟨c', found⟩ := getBlockBuffer_there there
    rw [found] at got
    cases got
  | none =>
    cases rear : s.cache.rear with
    | some i =>
      obtain ⟨j, poisoned⟩ := getBlockBuffer_labels there rear got
      obtain ⟨c', found⟩ := getBlockBuffer_there poisoned
      obtain ⟨c'', again⟩ := later [] ⟨c, s.held⟩ rfl
      rw [found] at again
      cases again
    | none =>
      rw [getBlockBuffer_none there rear] at got
      obtain rfl := (Prod.mk.inj (Option.some.inj got)).2
      obtain ⟨b, small, apart⟩ :=
        exists_not_buffered s.cache (by decide : lruLen < (Finset.range 5).card)
      have absent : bufferOf s.cache b = none :=
        List.find?_eq_none.mpr fun i _ number => apart i (of_decide_eq_true number)
      have onDisk : b < diskBlocks s.cache := by
        rw [diskBlocks, size]
        exact (Finset.mem_range.mp small).trans_le (by decide)
      obtain ⟨i, c', found, -⟩ := blocks b onDisk
      rw [getBlockBuffer_none absent rear] at found
      cases found

theorem sixtieth_block_not_refused : ¬ (⟨initBuf bareCache, []⟩ : Holders).Refuses 60 :=
  failed_read_poisons _ 60 rfl (by decide)

/-- The second get of block 60 returns the buffer that the first one took. -/
theorem sixtieth_block_got :
    ∃ c c', getBlockBuffer (initBuf bareCache) 60 .rootfs = some (none, c) ∧
      getBlockBuffer c 60 .rootfs = some (some 0, c') := by
  have first : (getBlockBuffer (initBuf bareCache) 60 .rootfs).any (fun got =>
      decide (got.1 = none ∧ (getBlockBuffer got.2 60 .rootfs).any fun again => again.1 = some 0)) =
        true := by
    decide
  obtain ⟨⟨result, c⟩, got, failed, second⟩ := exists_of_any first
  obtain ⟨⟨result', c'⟩, again, found⟩ := (Option.any_eq_true _ _).mp second
  obtain rfl : result = none := failed
  obtain rfl : result' = some 0 := of_decide_eq_true found
  exact ⟨c, c', got, again⟩

end Winix.Fs
