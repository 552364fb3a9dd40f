/-
**The kernel heap.**

`winix/slab.c`. The heap is a doubly linked list of blocks, each a header of six words and a payload;
it grows by pages that `get_free_pages` hands out at the top of the memory. `extend_heap` rounds a
request up to whole pages and then asks `get_free_pages`, which takes a length in words, for that number
of pages: it gets one page, whatever the request. It also rounds before it adds the header, so a request
that just fits a page gets a block that is smaller.

* `Blocks`: the list of blocks, linked both ways, no two of which share a word, inside the pages that
  were reserved;
* `Blocks.split`, `Blocks.fuse`, `Blocks.append`: what `split_block`, `fusion` and `extend_heap` do
  to it;
* **`heap_sound`**: in every run whose requests fit, every live pointer has a payload of the size that
  was asked for, in reserved pages, and nobody else has a word of it;
* `kmalloc_overruns`: a request that does not fit.
-/

import Winix.Kernel.Pages
import Winix.Lib.Walk

namespace Winix.Kernel

open Lib Function List BitVec Option

/-! ### The code -/

/-- `SLAB_BLOCK_SIZE`: the words of the header of a block. -/
def slabBlockSize : Nat := 6

/-- `struct mem_block`; the address that called `kmalloc` is left out. -/
structure MemBlock where
  size : Nat
  next : Option Nat
  prev : Option Nat
  free : Bool
  ptr : Nat

/-- The heap and the page allocator. `reserved` is not in the code: the pages that `get_free_pages`
has reserved for the heap. -/
structure Slab where
  base : Option Nat
  block : Nat → MemBlock
  mm : Mm
  reserved : List Range

namespace Slab

/-- Write to the header of a block. -/
def set (s : Slab) (b : Nat) (change : MemBlock → MemBlock) : Slab :=
  { s with block := update s.block b (change (s.block b)) }

/-- `b->size`. -/
def size (s : Slab) (b : Nat) : Nat := (s.block b).size
/-- `b->next`. -/
def next (s : Slab) (b : Nat) : Option Nat := (s.block b).next
/-- `b->prev`. -/
def prev (s : Slab) (b : Nat) : Option Nat := (s.block b).prev
/-- `b->free`. -/
def free (s : Slab) (b : Nat) : Bool := (s.block b).free
/-- `b->ptr`. -/
def ptr (s : Slab) (b : Nat) : Nat := (s.block b).ptr

end Slab

/-- `align4`. -/
def align4 (x : Word) : Word := ((x - 1#32) >>> 2 <<< 2) + 4#32

/-- `ALIGN1K_HB`. -/
def align1kHb (x : Word) : Word := ((x - 1#32) >>> 10 <<< 10) + 1024#32

/-- More than the number of blocks there can be. -/
def maxBlocks : Nat := 0x20000

/-- `find_block`: the block before it in the list, and the block. -/
def findBlock (s : Slab) (size : Nat) : Option (Option Nat × Option Nat) :=
  walk (fun b => s.free b && decide (size ≤ s.size b)) s.prev maxBlocks s.base s.base

/-- `if (p) p->prev = b`. -/
def setPrev (s : Slab) (p : Option Nat) (b : Nat) : Slab :=
  match p with
  | none => s
  | some p => s.set p fun h => { h with prev := some b }

/-- `if (base == old) base = new`. -/
def moveBase (s : Slab) (old new : Nat) : Slab :=
  if s.base = some old then { s with base := some new } else s

/-- Where `split_block` puts the header of the new block. -/
def splitPlace (s : Slab) (b n : Nat) : Nat := b + slabBlockSize + s.size b - n - slabBlockSize

/-- `split_block`. -/
def splitBlock (s : Slab) (b n : Nat) : Slab × Nat :=
  let new := splitPlace s b n
  let s := s.set new fun _ => ⟨n, s.next b, some b, true, new + slabBlockSize⟩
  let s := s.set b fun h => { h with size := h.size - n - slabBlockSize, next := some new }
  let s := moveBase s b new
  (setPrev s (s.next new) new, new)

/-- The size that `extend_heap` gives a small request. -/
def atLeast (n : Word) : Word := if n.toNat < slabBlockSize then 7#32 else n

section

variable (s : Slab)

/-- The block that `extend_heap` makes of the pages at an address. -/
def newBlock (first : Option Nat) (b round : Nat) : Slab :=
  setPrev (s.set b fun _ => ⟨round - slabBlockSize, first, none, true, b + slabBlockSize⟩) first b

/-- The end of `extend_heap`: what was asked for is cut off if something useful remains. -/
def placeBlock (first : Option Nat) (p round n : Nat) : Slab × Nat :=
  if slabBlockSize * 2 < round - n then splitBlock (newBlock s first p round) p n
  else (newBlock s first p round, p)

/-- `extend_heap`; nothing is `NULL`. -/
def extendHeap (first : Option Nat) (n : Word) : Slab × Option Nat :=
  let n := atLeast n
  let round := align1kHb n
  let (mm, ptr) := getFreePages s.mm (round / 1024#32) gfpHigh
  if ptr = 0#32 then ({ s with mm := mm }, none)
  else
    let pages : Range := ⟨paddrToPaged ptr, paddrToNumPages (round / 1024#32)⟩
    let (s, b) := placeBlock { s with mm := mm, reserved := pages :: s.reserved } first ptr.toNat
      round.toNat n.toNat
    (s, some b)

/-- `b->free = false; return b->data`. -/
def handOut (b : Nat) : Slab × Option Nat :=
  (s.set b fun h => { h with free := false }, some (b + slabBlockSize))

/-- `_kmalloc` for a block that was found. -/
def takeBlock (b n : Nat) : Slab × Option Nat :=
  if slabBlockSize * 2 ≤ s.size b - n then
    let (s, new) := splitBlock s b n
    handOut s new
  else handOut s b

/-- The end of `_kmalloc` when no block fits, with what `extend_heap` has returned. -/
def growBy (first : Option Nat) : Slab × Option Nat → Slab × Option Nat
  | (s, none) => (s, none)
  | (s, some b) => handOut (if first = none then { s with base := some b } else s) b

/-- `_kmalloc` when no block fits. -/
def growHeap (first : Option Nat) (n : Word) : Slab × Option Nat := growBy first (extendHeap s first n)

/-- `_kmalloc` with any `extend_heap`: the address, `NULL` being nothing. -/
def kmallocBy (extend : Option Nat → Word → Slab × Option Nat) (size : Word) :
    Option (Slab × Option Nat) := do
  let n := align4 size
  if s.base = none then some (growBy none (extend none n))
  else do
    let (first, found) ← findBlock s n.toNat
    match found with
    | some b => some (takeBlock s b n.toNat)
    | none => some (growBy first (extend first n))

/-- `_kmalloc`. -/
def kmalloc (size : Word) : Option (Slab × Option Nat) := kmallocBy s (extendHeap s) size

/-- `fusion`. -/
def fusion (b : Nat) : Slab :=
  match s.next b with
  | none => s
  | some n =>
    if s.free n && decide (s.ptr b + s.size b = n) then
      let after := s.next n
      let s := s.set b fun h => { h with size := h.size + (slabBlockSize + s.size n), next := after }
      setPrev (moveBase s n b) after b
    else s

/-- `if (b->prev && b->prev->free) b = fusion(b->prev)`. -/
def fusePrev (b : Nat) : Slab × Nat :=
  match s.prev b with
  | none => (s, b)
  | some p => if s.free p then (fusion s p, p) else (s, b)

/-- `_kfree`, from where the block is marked. -/
def release (b : Nat) : Slab :=
  let (s, b) := fusePrev s b
  match s.next b with
  | none => s
  | some n => if s.free n then fusion s b else s

/-- `_kfree`. -/
def kfree (p : Nat) : Slab :=
  let b := p - slabBlockSize
  if p ≠ 0 ∧ s.ptr b = p then release (s.set b fun h => { h with free := true }) b else s

end

/-! ### Blocks -/

section Set

variable {s : Slab} {b c : Nat} {change : MemBlock → MemBlock}

theorem Slab.block_set : (s.set b change).block c =
    if c = b then change (s.block b) else s.block c := update_apply ..

theorem Slab.set_of_ne (other : c ≠ b) : (s.set b change).block c = s.block c :=
  update_of_ne other ..

theorem Slab.next_set : (s.set b change).next = update s.next b (change (s.block b)).next :=
  comp_update MemBlock.next s.block b _

theorem Slab.prev_set : (s.set b change).prev = update s.prev b (change (s.block b)).prev :=
  comp_update MemBlock.prev s.block b _

theorem Slab.field_set {α : Type} (field : MemBlock → α) (same : ∀ h, field (change h) = field h) :
    field ((s.set b change).block c) = field (s.block c) := by
  rw [Slab.block_set]
  split_ifs with here
  · rw [here, same]
  · rfl

/-- What the fields but `prev` have in common. -/
theorem setPrev_field {α : Type} (field : MemBlock → α)
    (same : ∀ h prev, field { h with prev } = field h) (p : Option Nat) :
    field ((setPrev s p b).block c) = field (s.block c) := by
  cases p with
  | none => rfl
  | some p => exact Slab.field_set field fun h => same h _

/-- The links after `if (p) p->prev = b`. -/
def relink (prev : Nat → Option Nat) (p : Option Nat) (b : Nat) : Nat → Option Nat :=
  match p with
  | none => prev
  | some p => update prev p (some b)

theorem setPrev_prev (p : Option Nat) : (setPrev s p b).prev = relink s.prev p b := by
  cases p with
  | none => rfl
  | some p =>
    rw [setPrev, Slab.prev_set]
    rfl

/-- What is left when the block after it has been linked to a block. -/
structure Linked (s : Slab) (p : Option Nat) (b : Nat) (s' : Slab) : Prop where
  rest : s'.mm = s.mm ∧ s'.reserved = s.reserved
  next : s'.next = s.next
  prev : s'.prev = relink s.prev p b
  fields : ∀ c, s'.size c = s.size c ∧ s'.free c = s.free c ∧ s'.ptr c = s.ptr c

theorem setPrev_linked (s : Slab) (p : Option Nat) (b : Nat) :
    (setPrev s p b).base = s.base ∧ Linked s p b (setPrev s p b) := by
  refine ⟨?_, ?_, funext fun c => setPrev_field MemBlock.next (fun _ _ => rfl) p, setPrev_prev p,
    fun c => ⟨setPrev_field MemBlock.size (fun _ _ => rfl) p,
      setPrev_field MemBlock.free (fun _ _ => rfl) p, setPrev_field MemBlock.ptr (fun _ _ => rfl) p⟩⟩
  · cases p <;> rfl
  · cases p <;> exact ⟨rfl, rfl⟩

theorem moveBase_block : (moveBase s b c).block = s.block := by
  unfold moveBase
  split_ifs <;> rfl

/-- The last two steps of `split_block` and of `fusion`. -/
theorem moveBase_linked (s : Slab) (old b : Nat) (p : Option Nat) :
    (setPrev (moveBase s old b) p b).base = (if s.base = some old then some b else s.base) ∧
      Linked s p b (setPrev (moveBase s old b) p b) := by
  unfold moveBase
  split_ifs
  · obtain ⟨base, linked⟩ := setPrev_linked { s with base := some b } p b
    exact ⟨base, linked.rest, linked.next, linked.prev, linked.fields⟩
  · exact setPrev_linked s p b

end Set

/-- The words of a block. -/
def Slab.extent (s : Slab) (b : Nat) : Range := ⟨b, slabBlockSize + s.size b⟩

/-- The blocks of the heap, from a pointer on. -/
structure Blocks (s : Slab) (pointer : Option Nat) (blocks : List Nat) : Prop where
  forward : Chain s.prev pointer blocks
  backward : Chain s.next blocks.getLast? blocks.reverse
  ptr : ∀ b ∈ blocks, s.ptr b = b + slabBlockSize
  apart : ∀ b ∈ blocks, ∀ c ∈ blocks, b ≠ c → (s.extent b).Apart (s.extent c)
  owned : ∀ b ∈ blocks, ∀ i, (s.extent b).Holds i → ∃ r ∈ s.reserved, r.Holds (i / pageLen)

namespace Blocks

variable {s s' : Slab} {pointer : Option Nat} {blocks before after : List Nat} {b c n : Nat}

theorem nodup (list : Blocks s pointer blocks) : blocks.Nodup := list.forward.nodup

theorem next_eq (list : Blocks s pointer (before ++ b :: after)) : s.next b = before.getLast? := by
  have backward := list.backward
  rw [List.reverse_append, reverse_cons, List.append_assoc, singleton_append] at backward
  rw [backward.next_eq, head?_reverse]

theorem prev_eq (list : Blocks s pointer (before ++ b :: after)) : s.prev b = after.head? :=
  list.forward.next_eq

theorem last_none_iff (list : Blocks s pointer blocks) : blocks.getLast? = none ↔ pointer = none := by
  rw [list.forward.head?_eq]
  cases blocks <;> simp

theorem mark (list : Blocks s pointer blocks) (value : Bool) :
    Blocks (s.set b fun h => { h with free := value }) pointer blocks := by
  have extent : ∀ c, (s.set b fun h => { h with free := value }).extent c = s.extent c := fun c =>
    Slab.field_set (fun h => (⟨c, slabBlockSize + h.size⟩ : Range)) fun _ => rfl
  refine ⟨list.forward.congr fun c _ => Slab.field_set MemBlock.prev fun _ => rfl,
    list.backward.congr fun c _ => Slab.field_set MemBlock.next fun _ => rfl,
    fun c member => ?_, fun c inC d inD ne => ?_, fun c inC i holds => ?_⟩
  · rw [← list.ptr c member]
    exact Slab.field_set MemBlock.ptr fun _ => rfl
  · rw [extent, extent]
    exact list.apart c inC d inD ne
  · rw [extent] at holds
    exact list.owned c inC i holds

end Blocks

/-! ### Splitting -/

/-- What `split_block` changes. -/
structure SplitFrom (s : Slab) (b n new : Nat) (s' : Slab) : Prop where
  base : s'.base = if s.base = some b then some new else s.base
  mm : s'.mm = s.mm
  reserved : s'.reserved = s.reserved
  next : s'.next = update (update s.next new (s.next b)) b (some new)
  prev : s'.prev = relink (update s.prev new (some b)) (s.next b) new
  made : s'.size new = n ∧ s'.free new = true ∧ s'.ptr new = new + slabBlockSize
  old : s'.size b = s.size b - n - slabBlockSize ∧ s'.free b = s.free b ∧ s'.ptr b = s.ptr b
  others : ∀ c, c ≠ new → c ≠ b → s'.size c = s.size c ∧ s'.free c = s.free c ∧ s'.ptr c = s.ptr c

theorem splitBlock_from {s : Slab} {b n : Nat} (apart : splitPlace s b n ≠ b) :
    SplitFrom s b n (splitPlace s b n) (splitBlock s b n).1 := by
  generalize place : splitPlace s b n = new at apart
  have written : (splitBlock s b n).1 =
      let s₂ := (s.set new fun _ => ⟨n, s.next b, some b, true, new + slabBlockSize⟩).set b
        fun h => { h with size := h.size - n - slabBlockSize, next := some new }
      setPrev (moveBase s₂ b new) ((moveBase s₂ b new).next new) new := by
    rw [← place]
    rfl
  rw [written]
  dsimp only
  generalize two : (s.set new
    fun _ => (⟨n, s.next b, some b, true, new + slabBlockSize⟩ : MemBlock)).set b
    (fun h => { h with size := h.size - n - slabBlockSize, next := some new }) = s₂
  have atNew : s₂.block new = ⟨n, s.next b, some b, true, new + slabBlockSize⟩ := by
    rw [← two, Slab.set_of_ne apart, Slab.block_set, if_pos rfl]
  have atOld : s₂.block b =
      { s.block b with size := s.size b - n - slabBlockSize, next := some new } := by
    rw [← two, Slab.block_set, if_pos rfl, Slab.set_of_ne apart.symm]
    rfl
  have elsewhere : ∀ c, c ≠ new → c ≠ b → s₂.block c = s.block c := fun c notNew notOld => by
    rw [← two, Slab.set_of_ne notOld, Slab.set_of_ne notNew]
  have prev : s₂.prev = update s.prev new (some b) := by
    rw [← two, Slab.prev_set, Slab.set_of_ne apart.symm, Slab.prev_set]
    exact (congrArg _ (update_of_ne apart.symm ..).symm).trans (update_eq_self ..)
  have follows : (moveBase s₂ b new).next new = s.next b := by
    rw [Slab.next, moveBase_block, atNew]
  obtain ⟨base, linked⟩ := moveBase_linked s₂ b new (s.next b)
  rw [follows]
  refine ⟨base.trans ?_, linked.rest.1.trans ?_, linked.rest.2.trans ?_, linked.next.trans ?_, ?_,
    ?_, ?_, fun c notNew notOld => ?_⟩
  · rw [← two]
    rfl
  · rw [← two]
    rfl
  · rw [← two]
    rfl
  · rw [← two, Slab.next_set, Slab.next_set]
  · rw [linked.prev, prev]
  · obtain ⟨size, free, ptr⟩ := linked.fields new
    rw [size, free, ptr, Slab.size, Slab.free, Slab.ptr, atNew]
    exact ⟨rfl, rfl, rfl⟩
  · obtain ⟨size, free, ptr⟩ := linked.fields b
    rw [size, free, ptr, Slab.size, Slab.free, Slab.ptr, atOld]
    exact ⟨rfl, rfl, rfl⟩
  · obtain ⟨size, free, ptr⟩ := linked.fields c
    rw [size, free, ptr, Slab.size, Slab.free, Slab.ptr, elsewhere c notNew notOld]
    exact ⟨rfl, rfl, rfl⟩

namespace Blocks

variable {s s' : Slab} {pointer : Option Nat} {before after : List Nat} {b n new : Nat}

theorem split_links (list : Blocks s pointer (before ++ b :: after)) (split : SplitFrom s b n new s')
    (fresh : new ∉ before ++ b :: after) :
    Chain s'.prev (if pointer = some b then some new else pointer) (before ++ new :: b :: after) ∧
      Chain s'.next (before ++ new :: b :: after).getLast? (before ++ new :: b :: after).reverse := by
  have follows := list.next_eq
  refine ⟨?_, ?_⟩
  · rw [split.prev, follows]
    have chain := list.forward
    rcases eq_nil_or_concat before with rfl | ⟨front, x, rfl⟩
    · rw [if_pos chain.1]
      exact Chain.push fresh (chain.1 ▸ chain)
    · simp only [concat_eq_append, List.append_assoc, List.cons_append, nil_append] at chain fresh ⊢
      have notNew : x ≠ new := fun same => fresh (by simp [same])
      rw [if_neg chain.head_ne]
      refine (Chain.insert fresh chain).congr fun c _ => ?_
      have last : (front ++ [x]).getLast? = some x := by simp
      rw [last, relink, update_comm notNew]
      rfl
  · have backward := list.backward
    have last : (before ++ new :: b :: after).getLast? = (before ++ b :: after).getLast? := by
      simp
    have outside : new ∉ after.reverse ++ b :: before.reverse := fun member => fresh (by
      simp only [mem_append, mem_cons, mem_reverse] at member ⊢
      rcases member with inAfter | same | inBefore
      · exact .inr (.inr inAfter)
      · exact .inr (.inl same)
      · exact .inl inBefore)
    have notOld : new ≠ b := fun same => fresh (by simp [same])
    simp only [List.reverse_append, reverse_cons, List.append_assoc, List.cons_append,
      nil_append] at backward ⊢
    rw [last, split.next, follows]
    refine (Chain.insert outside backward).congr fun c _ => ?_
    rw [update_comm notOld, head?_reverse]

theorem eq_of_holds {blocks : List Nat} (list : Blocks s pointer blocks) {c d : Nat} (inC : c ∈ blocks)
    (inD : d ∈ blocks) (holds : (s.extent c).Holds d) : d = c := by
  by_contra other
  exact list.apart c inC d inD (Ne.symm other) d holds ⟨le_rfl, by
    simp only [Slab.extent, slabBlockSize]
    omega⟩

/-- **`split_block`** cuts a block in two. -/
theorem split (list : Blocks s pointer (before ++ b :: after)) (room : n + slabBlockSize ≤ s.size b)
    (place : new = b + s.size b - n) (split : SplitFrom s b n new s') :
    new ∉ before ++ b :: after ∧
      Blocks s' (if pointer = some b then some new else pointer) (before ++ new :: b :: after) := by
  have inB : b ∈ before ++ b :: after := by simp
  have inside : (s.extent b).Holds new := by
    simp only [Range.Holds, Slab.extent, slabBlockSize] at room ⊢
    omega
  have notB : new ≠ b := by
    simp only [slabBlockSize] at room
    omega
  have fresh : new ∉ before ++ b :: after := fun member => notB (list.eq_of_holds inB member inside)
  obtain ⟨forward, backward⟩ := list.split_links split fresh
  -- the two parts lie in the block that was split
  have atNew : s'.extent new = ⟨new, slabBlockSize + n⟩ := by rw [Slab.extent, split.made.1]
  have atB : s'.extent b = ⟨b, s.size b - n⟩ := by
    rw [Slab.extent, split.old.1]
    simp only [slabBlockSize, Range.mk.injEq, true_and] at room ⊢
    omega
  have elsewhere : ∀ c, c ≠ new → c ≠ b → s'.extent c = s.extent c := fun c notNew notOld => by
    rw [Slab.extent, (split.others c notNew notOld).1]
    rfl
  have parts : (s'.extent b).Apart (s'.extent new) := by
    rw [atNew, atB]
    exact Range.apart_of_le (by simp only; omega)
  have home : ∀ c ∈ before ++ new :: b :: after, ∃ d ∈ before ++ b :: after,
      (c = d ∨ c = new ∧ d = b) ∧ ∀ i, (s'.extent c).Holds i → (s.extent d).Holds i := by
    intro c member
    by_cases isNew : c = new
    · refine ⟨b, inB, .inr ⟨isNew, rfl⟩, fun i holds => ?_⟩
      rw [isNew, atNew] at holds
      simp only [Range.Holds, Slab.extent, slabBlockSize] at holds room ⊢
      omega
    · have old : c ∈ before ++ b :: after := by
        simpa [isNew] using member
      refine ⟨c, old, .inl rfl, fun i holds => ?_⟩
      by_cases isB : c = b
      · rw [isB, atB] at holds
        rw [isB]
        simp only [Range.Holds, Slab.extent, slabBlockSize] at holds room ⊢
        omega
      · rwa [elsewhere c isNew isB] at holds
  refine ⟨fresh, forward, backward, fun c member => ?_, fun c inC d inD ne => ?_,
    fun c inC i holds => ?_⟩
  · by_cases isNew : c = new
    · rw [isNew]
      exact split.made.2.2
    · have old : c ∈ before ++ b :: after := by
        simpa [isNew] using member
      by_cases isB : c = b
      · rw [isB, split.old.2.2]
        exact list.ptr b inB
      · rw [(split.others c isNew isB).2.2]
        exact list.ptr c old
  · obtain ⟨c', inC', isC, intoC⟩ := home c inC
    obtain ⟨d', inD', isD, intoD⟩ := home d inD
    by_cases same : c' = d'
    · -- both parts come from the same block
      rcases isC with rfl | ⟨rfl, rfl⟩ <;> rcases isD with rfl | ⟨rfl, isB⟩
      · exact absurd same ne
      · rw [same, isB]
        exact parts
      · rw [← same]
        exact parts.symm
      · exact absurd rfl ne
    · exact fun i first second => list.apart c' inC' d' inD' same i (intoC i first) (intoD i second)
  · obtain ⟨c', inC', -, intoC⟩ := home c inC
    rw [split.reserved]
    exact list.owned c' inC' i (intoC i holds)

end Blocks

/-! ### Fusing -/

/-- What `fusion` changes when it takes the next block in. -/
structure FusedFrom (s : Slab) (b n : Nat) (s' : Slab) : Prop where
  base : s'.base = if s.base = some n then some b else s.base
  mm : s'.mm = s.mm
  reserved : s'.reserved = s.reserved
  next : s'.next = update s.next b (s.next n)
  prev : s'.prev = relink s.prev (s.next n) b
  size : s'.size b = s.size b + (slabBlockSize + s.size n)
  sizes : ∀ c, c ≠ b → s'.size c = s.size c
  free : s'.free = s.free
  ptr : s'.ptr = s.ptr

theorem fusion_cases (s : Slab) (b : Nat) : fusion s b = s ∨ ∃ n, s.next b = some n ∧
    s.free n = true ∧ s.ptr b + s.size b = n ∧ FusedFrom s b n (fusion s b) := by
  unfold fusion
  cases follows : s.next b with
  | none => exact .inl rfl
  | some n =>
    dsimp only
    split_ifs with joins
    · obtain ⟨free, touch⟩ := Bool.and_eq_true_iff.mp joins
      refine .inr ⟨n, rfl, free, of_decide_eq_true touch, ?_⟩
      obtain ⟨base, linked⟩ := moveBase_linked (s.set b fun h =>
        { h with size := h.size + (slabBlockSize + s.size n), next := s.next n }) n b (s.next n)
      refine ⟨base, linked.rest.1, linked.rest.2, linked.next.trans Slab.next_set,
        linked.prev.trans ?_, (linked.fields b).1.trans ?_, fun c other => (linked.fields c).1.trans ?_,
        funext fun c => (linked.fields c).2.1.trans (Slab.field_set MemBlock.free fun _ => rfl),
        funext fun c => (linked.fields c).2.2.trans (Slab.field_set MemBlock.ptr fun _ => rfl)⟩
      · exact congrArg (relink · _ b) (funext fun c => Slab.field_set MemBlock.prev fun _ => rfl)
      · exact congrArg MemBlock.size (Slab.block_set.trans (if_pos rfl))
      · exact congrArg MemBlock.size (Slab.set_of_ne other)
    · exact .inl rfl

namespace Blocks

variable {s s' : Slab} {pointer : Option Nat} {before after : List Nat} {b n : Nat}

theorem fuse_links (list : Blocks s pointer (before ++ n :: b :: after)) (fused : FusedFrom s b n s') :
    Chain s'.prev (if pointer = some n then some b else pointer) (before ++ b :: after) ∧
      Chain s'.next (before ++ b :: after).getLast? (before ++ b :: after).reverse := by
  have follows := list.next_eq
  have chain := list.forward
  have precedes : s.prev n = some b := list.prev_eq
  refine ⟨?_, ?_⟩
  · rw [fused.prev, follows]
    rcases eq_nil_or_concat before with rfl | ⟨front, x, rfl⟩
    · rw [if_pos chain.1]
      exact precedes ▸ chain.2
    · simp only [concat_eq_append, List.append_assoc, List.cons_append, nil_append] at chain ⊢
      have last : (front ++ [x]).getLast? = some x := by simp
      rw [if_neg chain.head_ne, last, relink, ← precedes]
      exact chain.bypass
  · have backward := list.backward
    have last : (before ++ n :: b :: after).getLast? = (before ++ b :: after).getLast? := by
      simp
    simp only [List.reverse_append, reverse_cons, List.append_assoc, List.cons_append,
      nil_append] at backward ⊢
    rw [← last, fused.next]
    exact backward.bypass

/-- **`fusion`** makes one block of two neighbours. -/
theorem fuse (list : Blocks s pointer (before ++ n :: b :: after))
    (touch : b + slabBlockSize + s.size b = n)
    (fused : FusedFrom s b n s') :
    Blocks s' (if pointer = some n then some b else pointer) (before ++ b :: after) := by
  obtain ⟨forward, backward⟩ := list.fuse_links fused
  have inB : b ∈ before ++ n :: b :: after := by simp
  have inN : n ∈ before ++ n :: b :: after := by simp
  have old : ∀ c ∈ before ++ b :: after, c ∈ before ++ n :: b :: after ∧ c ≠ n := by
    intro c member
    have nodup := list.nodup
    rw [nodup_middle, nodup_cons] at nodup
    refine ⟨?_, fun same => nodup.1 (same ▸ member)⟩
    simp only [mem_append, mem_cons] at member ⊢
    exact member.imp_right .inr
  -- a word of the new block is a word of one of the two
  have home : ∀ c ∈ before ++ b :: after, ∀ i, (s'.extent c).Holds i →
      (s.extent c).Holds i ∨ c = b ∧ (s.extent n).Holds i := by
    intro c member i holds
    by_cases isB : c = b
    · rw [isB, Slab.extent, fused.size] at holds
      simp only [Range.Holds, slabBlockSize] at holds touch
      by_cases first : i < n
      · refine .inl ?_
        simp only [isB, Range.Holds, Slab.extent, slabBlockSize]
        omega
      · refine .inr ⟨isB, ?_⟩
        simp only [Range.Holds, Slab.extent, slabBlockSize]
        omega
    · rw [Slab.extent, fused.sizes c isB] at holds
      exact .inl holds
  refine ⟨forward, backward, fun c member => ?_, fun c inC d inD ne i first second => ?_,
    fun c inC i holds => ?_⟩
  · rw [fused.ptr]
    exact list.ptr c (old c member).1
  · obtain ⟨oldC, notC⟩ := old c inC
    obtain ⟨oldD, notD⟩ := old d inD
    rcases home c inC i first with first | ⟨rfl, first⟩ <;> rcases home d inD i second with second |
      ⟨rfl, second⟩
    · exact list.apart c oldC d oldD ne i first second
    · exact list.apart c oldC n inN notC i first second
    · exact list.apart n inN d oldD (Ne.symm notD) i first second
    · exact ne rfl
  · rw [fused.reserved]
    rcases home c inC i holds with holds | ⟨-, holds⟩
    · exact list.owned c (old c inC).1 i holds
    · exact list.owned n inN i holds

end Blocks

/-! ### Growing -/

/-- What `extend_heap` changes to put a new block at the end of the list. -/
structure NewFrom (s : Slab) (first : Option Nat) (b round : Nat) (s' : Slab) : Prop where
  base : s'.base = s.base
  mm : s'.mm = s.mm
  reserved : s'.reserved = s.reserved
  next : s'.next = update s.next b first
  prev : s'.prev = relink (update s.prev b none) first b
  made : s'.size b = round - slabBlockSize ∧ s'.free b = true ∧ s'.ptr b = b + slabBlockSize
  others : ∀ c, c ≠ b → s'.size c = s.size c ∧ s'.free c = s.free c ∧ s'.ptr c = s.ptr c

theorem newBlock_from (s : Slab) (first : Option Nat) (b round : Nat) :
    NewFrom s first b round (newBlock s first b round) := by
  obtain ⟨base, linked⟩ := setPrev_linked
    (s.set b fun _ => ⟨round - slabBlockSize, first, none, true, b + slabBlockSize⟩) first b
  refine ⟨base, linked.rest.1, linked.rest.2, linked.next.trans Slab.next_set, ?_, ?_,
    fun c other => ?_⟩
  · exact linked.prev.trans (congrArg (relink · first b) Slab.prev_set)
  · obtain ⟨size, free, ptr⟩ := linked.fields b
    rw [newBlock, size, free, ptr, Slab.size, Slab.free, Slab.ptr, Slab.block_set, if_pos rfl]
    exact ⟨rfl, rfl, rfl⟩
  · obtain ⟨size, free, ptr⟩ := linked.fields c
    rw [newBlock, size, free, ptr, Slab.size, Slab.free, Slab.ptr, Slab.set_of_ne other]
    exact ⟨rfl, rfl, rfl⟩

namespace Blocks

variable {s s' : Slab} {pointer : Option Nat} {blocks : List Nat} {b round : Nat}

theorem append_links (list : Blocks s pointer blocks) (fresh : b ∉ blocks)
    (new : NewFrom s blocks.getLast? b round s') :
    Chain s'.prev (pointer.or (some b)) (blocks ++ [b]) ∧
      Chain s'.next (blocks ++ [b]).getLast? (blocks ++ [b]).reverse := by
  have forward := list.forward
  refine ⟨?_, ?_⟩
  · rw [new.prev]
    rcases eq_nil_or_concat blocks with rfl | ⟨front, x, rfl⟩
    · rw [Chain.nil_iff] at forward
      rw [forward]
      exact ⟨rfl, update_self ..⟩
    · rw [concat_eq_append] at forward fresh ⊢
      have notNew : x ≠ b := fun same => fresh (by simp [same])
      have last : (front ++ [x]).getLast? = some x := by simp
      have head : pointer.or (some b) = pointer := by
        rw [forward.head?_eq]
        cases front <;> rfl
      rw [last, relink, head]
      refine (Chain.snoc fresh forward).congr fun c _ => ?_
      rw [update_comm notNew]
  · rw [new.next, getLast?_append, getLast?_singleton, some_or, List.reverse_append]
    exact Chain.push (by simpa using fresh) list.backward

/-- **`extend_heap`** puts a block at the end of the list. -/
theorem append (list : Blocks s pointer blocks) (header : slabBlockSize ≤ round)
    (apart : ∀ c ∈ blocks, (⟨b, round⟩ : Range).Apart (s.extent c)) (mm : Mm) {reserved : List Range}
    (kept : s.reserved ⊆ reserved)
    (owned : ∀ i, (⟨b, round⟩ : Range).Holds i → ∃ r ∈ reserved, r.Holds (i / pageLen))
    (new : NewFrom { s with mm := mm, reserved := reserved } blocks.getLast? b round s') :
    b ∉ blocks ∧ Blocks s' (pointer.or (some b)) (blocks ++ [b]) := by
  have fresh : b ∉ blocks := fun member => apart b member b
    ⟨le_rfl, by simp only [slabBlockSize] at header ⊢; omega⟩
    ⟨le_rfl, by simp only [Slab.extent, slabBlockSize]; omega⟩
  have before : Blocks { s with mm := mm, reserved := reserved } pointer blocks :=
    ⟨list.forward, list.backward, list.ptr, list.apart, fun c member i holds => by
      obtain ⟨r, inside, page⟩ := list.owned c member i holds
      exact ⟨r, kept inside, page⟩⟩
  obtain ⟨forward, backward⟩ := before.append_links fresh new
  have atB : s'.extent b = ⟨b, round⟩ := by
    rw [Slab.extent, new.made.1]
    simp only [Range.mk.injEq, true_and]
    omega
  have elsewhere : ∀ c ∈ blocks, s'.extent c = s.extent c := fun c member => by
    rw [Slab.extent, (new.others c fun same => fresh (same ▸ member)).1]
    rfl
  have cases : ∀ c ∈ blocks ++ [b], c ∈ blocks ∨ c = b := fun c member => by simpa using member
  refine ⟨fresh, forward, backward, fun c member => ?_, fun c inC d inD ne => ?_,
    fun c inC i holds => ?_⟩
  · rcases cases c member with old | rfl
    · rw [(new.others c fun same => fresh (same ▸ old)).2.2]
      exact list.ptr c old
    · exact new.made.2.2
  · rcases cases c inC with oldC | rfl <;> rcases cases d inD with oldD | rfl
    · rw [elsewhere c oldC, elsewhere d oldD]
      exact list.apart c oldC d oldD ne
    · rw [elsewhere c oldC, atB]
      exact (apart c oldC).symm
    · rw [elsewhere d oldD, atB]
      exact apart d oldD
    · exact absurd rfl ne
  · rw [new.reserved]
    rcases cases c inC with old | rfl
    · rw [elsewhere c old] at holds
      exact before.owned c old i holds
    · rw [atB] at holds
      exact owned i holds

end Blocks

/-! ### Live pointers -/

/-- Every pointer that is live, with the size that was asked for, is the payload of a block that is
taken and large enough. -/
structure Live (s : Slab) (blocks : List Nat) (live : List (Nat × Nat)) : Prop where
  taken : ∀ l ∈ live, ∃ b ∈ blocks, l.1 = b + slabBlockSize ∧ s.free b = false ∧ l.2 ≤ s.size b
  once : (live.map Prod.fst).Nodup

namespace Live

variable {s s' : Slab} {blocks blocks' : List Nat} {live : List (Nat × Nat)} {b size : Nat}

theorem transfer (old : Live s blocks live) (same : ∀ c ∈ blocks, s.free c = false →
    c ∈ blocks' ∧ s'.free c = false ∧ s'.size c = s.size c) : Live s' blocks' live := by
  refine ⟨fun l member => ?_, old.once⟩
  obtain ⟨c, inC, place, taken, enough⟩ := old.taken l member
  obtain ⟨inC', taken', size⟩ := same c inC taken
  exact ⟨c, inC', place, taken', size ▸ enough⟩

theorem split {before after : List Nat} {n new : Nat} (old : Live s (before ++ b :: after) live)
    (split : SplitFrom s b n new s') (fresh : new ∉ before ++ b :: after) (free : s.free b = true) :
    Live s' (before ++ new :: b :: after) live :=
  old.transfer fun c inC taken => by
    have notB : c ≠ b := fun same => by
      rw [same, free] at taken
      cases taken
    obtain ⟨size, free, -⟩ := split.others c (fun same => fresh (same ▸ inC)) notB
    refine ⟨?_, free.trans taken, size⟩
    simp only [mem_append, mem_cons] at inC ⊢
    exact inC.imp_right .inr

/-- **A free block is handed out.** -/
theorem handOut (old : Live s blocks live) (member : b ∈ blocks) (free : s.free b = true)
    (enough : size ≤ s.size b) :
    Live (handOut s b).1 blocks ((b + slabBlockSize, size) :: live) := by
  have notB : ∀ c, s.free c = false → c ≠ b := fun c taken same => by
    rw [same, free] at taken
    cases taken
  have still : Live (Kernel.handOut s b).1 blocks live := old.transfer fun c inC taken => by
    have same : (Kernel.handOut s b).1.block c = s.block c := by
      rw [Kernel.handOut, Slab.set_of_ne (notB c taken)]
    exact ⟨inC, (congrArg MemBlock.free same).trans taken, congrArg MemBlock.size same⟩
  have here : (Kernel.handOut s b).1.block b = { s.block b with free := false } := by
    rw [Kernel.handOut, Slab.block_set, if_pos rfl]
  refine ⟨fun l inL => ?_, nodup_cons.mpr ⟨fun twice => ?_, old.once⟩⟩
  · rcases mem_cons.mp inL with rfl | inL
    · exact ⟨b, member, rfl, congrArg MemBlock.free here,
        enough.trans_eq (congrArg MemBlock.size here).symm⟩
    · exact still.taken l inL
  · obtain ⟨l, inL, same⟩ := mem_map.mp twice
    obtain ⟨c, -, place, taken, -⟩ := old.taken l inL
    exact notB c taken (by simp only [slabBlockSize] at *; omega)

/-- **A pointer is given back.** -/
theorem giveBack (old : Live s blocks live) :
    Live (s.set b fun h => { h with free := true }) blocks
      (live.filter fun l => l.1 ≠ b + slabBlockSize) := by
  refine ⟨fun l member => ?_, (filter_sublist.map _).nodup old.once⟩
  obtain ⟨inL, other⟩ := mem_filter.mp member
  obtain ⟨c, inC, place, taken, enough⟩ := old.taken l inL
  have notB : c ≠ b := fun same => of_decide_eq_true other (place.trans (same ▸ rfl))
  have same : (s.set b fun h => { h with free := true }).block c = s.block c := Slab.set_of_ne notB
  exact ⟨c, inC, place, (congrArg MemBlock.free same).trans taken,
    enough.trans_eq (congrArg MemBlock.size same).symm⟩

end Live

/-! ### The words of the blocks -/

/-- The words of the blocks, headers included. -/
def Slab.words (s : Slab) (blocks : List Nat) : Nat :=
  (blocks.map fun b => s.size b + slabBlockSize).sum

/-- The blocks are linked, the pointers are live, and no word of the heap has been lost. -/
structure Rearranged (s : Slab) (blocks : List Nat) (live : List (Nat × Nat)) (s' : Slab)
    (blocks' : List Nat) : Prop where
  list : Blocks s' s'.base blocks'
  live : Live s' blocks' live
  words : s'.words blocks' = s.words blocks
  mm : s'.mm = s.mm
  reserved : s'.reserved = s.reserved

section Total

variable {s s' : Slab} {pointer : Option Nat} {blocks before after : List Nat} {b n new : Nat}

theorem Slab.words_congr (same : ∀ c ∈ blocks, s'.size c = s.size c) :
    s'.words blocks = s.words blocks :=
  congrArg List.sum (List.map_congr_left fun c member => by rw [same c member])

theorem Slab.words_mark {value : Bool} :
    (s.set b fun h => { h with free := value }).words blocks = s.words blocks :=
  Slab.words_congr fun _ _ => Slab.field_set MemBlock.size fun _ => rfl

theorem Slab.words_middle :
    s.words (before ++ b :: after) = s.size b + slabBlockSize + s.words (before ++ after) :=
  (List.perm_middle.map _).sum_nat

theorem SplitFrom.words (split : SplitFrom s b n new s')
    (list : Blocks s pointer (before ++ b :: after))
    (room : n + slabBlockSize ≤ s.size b) (fresh : new ∉ before ++ b :: after) :
    s'.words (before ++ new :: b :: after) = s.words (before ++ b :: after) := by
  have rest : s'.words (before ++ after) = s.words (before ++ after) :=
    Slab.words_congr fun c member => by
    obtain ⟨inC, notB⟩ := (Chain.mem_split list.nodup c).mp member
    exact (split.others c (fun same => fresh (same ▸ inC)) notB).1
  rw [Slab.words_middle, Slab.words_middle, Slab.words_middle, rest, split.made.1, split.old.1]
  omega

theorem FusedFrom.words (fused : FusedFrom s b n s') (nodup : (before ++ b :: after).Nodup) :
    s'.words (before ++ b :: after) = s.words (before ++ n :: b :: after) := by
  have rest : s'.words (before ++ after) = s.words (before ++ after) := Slab.words_congr fun c member =>
    fused.sizes c ((Chain.mem_split nodup c).mp member).2
  rw [Slab.words_middle, Slab.words_middle, Slab.words_middle, rest, fused.size]
  omega

end Total

/-! ### `kmalloc` -/

section Kmalloc

variable {s s' : Slab} {blocks : List Nat} {live : List (Nat × Nat)} {b n size : Nat}
variable {request : Word}

/-- **A block that was found** is handed out, whole or in part. -/
theorem takeBlock_served (list : Blocks s s.base blocks) (old : Live s blocks live)
    (member : b ∈ blocks)
    (free : s.free b = true) (fits : n ≤ s.size b) (enough : size ≤ n) :
    ∃ s' p blocks', takeBlock s b n = (s', some p) ∧
      Rearranged s blocks ((p, size) :: live) s' blocks' := by
  unfold takeBlock
  split_ifs with large
  · obtain ⟨before, after, rfl⟩ := append_of_mem member
    have room : n + slabBlockSize ≤ s.size b := by
      simp only [slabBlockSize] at large ⊢
      omega
    have place : splitPlace s b n = b + s.size b - n := by
      simp only [splitPlace, slabBlockSize] at large ⊢
      omega
    have apart : splitPlace s b n ≠ b := by
      simp only [slabBlockSize] at large
      omega
    have split := splitBlock_from apart
    obtain ⟨fresh, list'⟩ := list.split room place split
    rw [← split.base] at list'
    refine ⟨_, _, _, rfl, list'.mark false, ?_, Slab.words_mark.trans (split.words list room fresh),
      split.mm,
      split.reserved⟩
    exact (old.split split fresh free).handOut (by simp) split.made.2.1
      (enough.trans_eq split.made.1.symm)
  · exact ⟨_, _, _, rfl, list.mark false, old.handOut member free (enough.trans fits),
      Slab.words_mark, rfl,
      rfl⟩

/-- A block has been put at the end of the list, and this part of it is to be handed out. -/
structure Placed (s : Slab) (blocks : List Nat) (live : List (Nat × Nat)) (round n : Nat)
    (s' : Slab) (b : Nat)
    (blocks' : List Nat) : Prop where
  list : Blocks s' (if s.base = none then some b else s'.base) blocks'
  live : Live s' blocks' live
  words : s'.words blocks' = s.words blocks + round
  member : b ∈ blocks'
  free : s'.free b = true
  size : min n (round - slabBlockSize) ≤ s'.size b

/-- **`extend_heap` with new pages.** -/
theorem placeBlock_placed {p : Nat} (round : Nat) (list : Blocks s s.base blocks)
    (old : Live s blocks live) (header : slabBlockSize ≤ round)
    (apart : ∀ c ∈ blocks, (⟨p, round⟩ : Range).Apart (s.extent c)) (mm : Mm)
    {reserved : List Range} (kept : s.reserved ⊆ reserved)
    (owned : ∀ i, (⟨p, round⟩ : Range).Holds i → ∃ r ∈ reserved, r.Holds (i / pageLen)) :
    ∃ s' b blocks', placeBlock { s with mm := mm, reserved := reserved } blocks.getLast? p round n =
      (s', b) ∧
      Placed s blocks live round n s' b blocks' ∧ s'.mm = mm ∧ s'.reserved = reserved := by
  have new := newBlock_from { s with mm := mm, reserved := reserved } blocks.getLast? p round
  unfold placeBlock
  generalize newBlock { s with mm := mm, reserved := reserved } blocks.getLast? p round = s₁ at new ⊢
  obtain ⟨fresh, list₁⟩ := list.append header apart mm kept owned new
  have others : ∀ c ∈ blocks, _ := fun c inC => new.others c fun same => fresh (same ▸ inC)
  have live₁ : Live s₁ (blocks ++ [p]) live := old.transfer fun c inC taken =>
    ⟨mem_append_left _ inC, (others c inC).2.1.trans taken, (others c inC).1⟩
  have words₁ : s₁.words (blocks ++ [p]) = s.words blocks + round := by
    rw [Slab.words_middle, append_nil, new.made.1, Slab.words_congr fun c inC => (others c inC).1]
    show _ + s.words blocks = _
    omega
  split_ifs with large
  · simp only [slabBlockSize] at large
    have size : s₁.size p = round - 6 := new.made.1
    have room : n + slabBlockSize ≤ s₁.size p := by
      rw [size, slabBlockSize]
      omega
    have split : SplitFrom s₁ p n _ (splitBlock s₁ p n).1 :=
      splitBlock_from (by simp only [splitPlace, slabBlockSize, size]; omega)
    obtain ⟨fresh₂, list₂⟩ :=
      list₁.split room (by simp only [splitPlace, slabBlockSize, size]; omega) split
    refine ⟨(splitBlock s₁ p n).1, splitPlace s₁ p n, _, rfl,
      ⟨?_, live₁.split split fresh₂ new.made.2.1,
      (split.words list₁ room fresh₂).trans words₁, by simp, split.made.2.1, ?_⟩, split.mm.trans new.mm,
      split.reserved.trans new.reserved⟩
    · convert list₂ using 1
      rw [split.base, new.base]
      cases s.base <;> simp
    · rw [split.made.1]
      exact min_le_left ..
  · refine ⟨s₁, p, _, rfl, ⟨?_, live₁, words₁, by simp, new.made.2.1, ?_⟩, new.mm, new.reserved⟩
    · convert list₁ using 1
      rw [new.base]
      cases s.base <;> rfl
    · rw [new.made.1]
      exact min_le_right ..

/-- **`_kmalloc`** hands the block out. -/
theorem Placed.grown {round : Nat} {blocks' : List Nat} {first : Option Nat}
    (placed : Placed s blocks live round n s' b blocks') (empty : first = none ↔ s.base = none)
    (enough : size ≤ min n (round - slabBlockSize)) :
    ∃ s'' p, growBy first (s', some b) = (s'', some p) ∧ Blocks s'' s''.base blocks' ∧
      Live s'' blocks' ((p, size) :: live) ∧ s''.words blocks' = s.words blocks + round ∧
      s''.mm = s'.mm ∧
      s''.reserved = s'.reserved := by
  obtain ⟨list, live', words, member, free, large⟩ := placed
  by_cases none : s.base = none
  · rw [if_pos none] at list
    rw [growBy, if_pos (empty.mpr none)]
    have list' : Blocks { s' with base := some b } (some b) blocks' :=
      ⟨list.forward, list.backward, list.ptr, list.apart, list.owned⟩
    have taken : Live { s' with base := some b } blocks' live := ⟨live'.taken, live'.once⟩
    exact ⟨_, _, rfl, list'.mark false, taken.handOut member free (enough.trans large),
      Slab.words_mark.trans words, rfl, rfl⟩
  · rw [if_neg none] at list
    rw [growBy, if_neg (mt empty.mp none)]
    exact ⟨_, _, rfl, list.mark false, live'.handOut member free (enough.trans large),
      Slab.words_mark.trans words, rfl, rfl⟩

theorem align4_toNat {x : Word} (positive : 0 < x.toNat) (small : x.toNat ≤ 2 ^ 32 - 4) :
    (align4 x).toNat = (x.toNat + 3) / 4 * 4 := by
  rw [align4, toNat_add, toNat_shiftLeft, toNat_ushiftRight, toNat_sub_one positive,
    Nat.shiftRight_eq_div_pow, Nat.shiftLeft_eq]
  simp only [toNat_ofNat]
  omega

theorem align1kHb_toNat {x : Word} (positive : 0 < x.toNat) :
    (align1kHb x).toNat = ((x.toNat - 1) / 1024 * 1024 + 1024) % 2 ^ 32 := by
  rw [align1kHb, toNat_add, toNat_shiftLeft, toNat_ushiftRight, toNat_sub_one positive,
    Nat.shiftRight_eq_div_pow, Nat.shiftLeft_eq]
  simp only [toNat_ofNat]
  omega

/-- The words of a page that is handed out lie in none of the blocks. -/
theorem page_apart {kernel page : Nat} {others : List Range} {mm : Mm} (list : Blocks s s.base blocks)
    (pages : PagesInv mm kernel (⟨page, 1⟩ :: (others ++ s.reserved))) {c : Nat} (member : c ∈ blocks) :
    (⟨page * pageLen, pageLen⟩ : Range).Apart (s.extent c) := by
  intro i here there
  obtain ⟨r, inside, holds⟩ := list.owned c member i there
  have apart := (pairwise_cons.mp (pairwise_cons.mp (pairwise_cons.mp
    pages.tiled.apart).2).2).1 r (mem_append_right _ inside)
  have page : (⟨page, 1⟩ : Range).Holds (i / pageLen) := by
    simp only [Range.Holds, pageLen] at here ⊢
    omega
  exact apart _ page holds

theorem atLeast_align4 (positive : 0 < request.toNat) (small : request.toNat ≤ 1018) :
    request.toNat ≤ (atLeast (align4 request)).toNat ∧ (atLeast (align4 request)).toNat ≤ 1020 ∧
      align1kHb (atLeast (align4 request)) = 1024#32 := by
  have aligned := align4_toNat positive (by omega)
  have bounds : request.toNat ≤ (atLeast (align4 request)).toNat ∧
      (atLeast (align4 request)).toNat ≤ 1020 := by
    unfold atLeast
    split_ifs with little
    · have value : (7#32).toNat = 7 := rfl
      simp only [slabBlockSize] at little
      omega
    · omega
  refine ⟨bounds.1, bounds.2, eq_of_toNat_eq ?_⟩
  rw [align1kHb_toNat (by omega), toNat_ofNat]
  omega

theorem extendHeap_eq (s : Slab) (first : Option Nat) (n : Word) : extendHeap s first n =
    let got := getFreePages s.mm (align1kHb (atLeast n) / 1024#32) gfpHigh
    let pages : Range := ⟨paddrToPaged got.2, paddrToNumPages (align1kHb (atLeast n) / 1024#32)⟩
    let placed := placeBlock { s with mm := got.1, reserved := pages :: s.reserved } first got.2.toNat
      (align1kHb (atLeast n)).toNat (atLeast n).toNat
    if got.2 = 0#32 then ({ s with mm := got.1 }, none) else (placed.1, some placed.2) := by
  rw [extendHeap]

/-- **`extend_heap` for a small request**: nothing is left, or a page is. -/
theorem extendHeap_page {kernel : Nat} {others : List Range} (list : Blocks s s.base blocks)
    (old : Live s blocks live) (pages : PagesInv s.mm kernel (others ++ s.reserved))
    (positive : 0 < request.toNat) (small : request.toNat ≤ 1018) :
    extendHeap s blocks.getLast? (align4 request) = (s, none) ∨
      ∃ s' b blocks', extendHeap s blocks.getLast? (align4 request) = (s', some b) ∧
        Placed s blocks live 1024 (atLeast (align4 request)).toNat s' b blocks' ∧
        PagesInv s'.mm kernel (others ++ s'.reserved) := by
  obtain ⟨-, -, round⟩ := atLeast_align4 positive small
  have one : 1024#32 / 1024#32 = 1#32 := by decide
  rw [extendHeap_eq]
  simp only [round, one]
  rcases pages.getFreePages_spec (show 0 < (1#32 : Word).toInt by decide) gfpHigh with
    nothing | ⟨mm, p, got, some', place, pages'⟩
  · left
    rw [nothing]
    rfl
  · right
    rw [got]
    simp only [if_neg some']
    have pages' : PagesInv mm kernel (⟨paddrToPaged p, 1⟩ :: (others ++ s.reserved)) := pages'
    obtain ⟨s', b, blocks', ran, placed, mm', reserved⟩ := placeBlock_placed 1024
      (n := (atLeast (align4 request)).toNat) list old (by decide)
      (fun c member => place ▸ page_apart list pages' member) mm
        (subset_cons_self ⟨paddrToPaged p, 1⟩ _)
      (fun i holds => ⟨_, mem_cons_self, by
        simp only [Range.Holds, pageLen] at holds place ⊢
        omega⟩)
    refine ⟨s', b, blocks', ?_, placed, ?_⟩
    · rw [show paddrToNumPages 1#32 = 1 by decide, show (1024#32).toNat = 1024 from rfl, ran]
    · rw [mm', reserved]
      exact pages'.perm List.perm_middle.symm

variable {kernel : Nat} {others : List Range}

/-- The heap, the pointers that are live and the pages agree. -/
structure HeapInv (kernel : Nat) (others : List Range) (s : Slab) (live : List (Nat × Nat))
    (blocks : List Nat) : Prop where
  list : Blocks s s.base blocks
  live : Live s blocks live
  pages : PagesInv s.mm kernel (others ++ s.reserved)

/-- **`_kmalloc` of a small size** when no block fits. -/
theorem growHeap_served (inv : HeapInv kernel others s live blocks) (positive : 0 < request.toNat)
    (small : request.toNat ≤ 1018) :
    growHeap s blocks.getLast? (align4 request) = (s, none) ∨
      ∃ s' p blocks', growHeap s blocks.getLast? (align4 request) = (s', some p) ∧
        HeapInv kernel others s' ((p, request.toNat) :: live) blocks' := by
  obtain ⟨enough, -, -⟩ := atLeast_align4 positive small
  rw [growHeap]
  rcases extendHeap_page inv.list inv.live inv.pages positive small with
    nothing | ⟨s', b, blocks', extended, placed, pages⟩
  · left
    rw [nothing]
    rfl
  · right
    rw [extended]
    obtain ⟨s'', p, grown, list, live', -, mm, reserved⟩ :=
      placed.grown inv.list.last_none_iff (le_min enough small)
    exact ⟨s'', p, blocks', grown, list, live', by rw [mm, reserved]; exact pages⟩

/-- What `find_block` finds, and the end of the list otherwise. -/
theorem findBlock_spec {first found : Option Nat} (list : Blocks s s.base blocks)
    (some' : s.base ≠ none)
    (ran : findBlock s n = some (first, found)) :
    (found = none ∧ first = blocks.getLast?) ∨
      ∃ b ∈ blocks, found = some b ∧ s.free b = true ∧ n ≤ s.size b := by
  obtain ⟨before, after, rfl, isFound, isFirst, -, stops⟩ := walk_spec list.forward ran
  cases after with
  | nil =>
    refine .inl ⟨isFound, ?_⟩
    rw [isFirst, append_nil]
    cases last : before.getLast? with
    | some x => rfl
    | none =>
      obtain rfl := List.getLast?_eq_none_iff.mp last
      exact absurd list.forward some'
  | cons b after =>
    have stop := stops b isFound
    obtain ⟨free, fits⟩ := Bool.and_eq_true_iff.mp stop
    exact .inr ⟨b, by simp, isFound, free, of_decide_eq_true fits⟩

/-- There are not more blocks than words in the memory. -/
theorem length_le_maxBlocks (list : Blocks s pointer blocks)
    (inside : ∀ r ∈ s.reserved, r.first + r.len ≤ pagesNr) : blocks.length ≤ maxBlocks := by
  have below : ∀ b ∈ blocks, b < maxBlocks := fun b inB => by
    obtain ⟨r, reserved, holds⟩ := list.owned b inB b
      ⟨le_rfl, Nat.lt_add_of_pos_right (Nat.lt_add_right _ (by decide))⟩
    have inside := inside r reserved
    simp only [Range.Holds, pageLen, maxBlocks, pagesNr] at holds inside ⊢
    omega
  have subset : blocks.toFinset ⊆ Finset.range maxBlocks := fun b member =>
    Finset.mem_range.mpr (below b (List.mem_toFinset.mp member))
  have card := Finset.card_le_card subset
  rwa [toFinset_card_of_nodup list.nodup, Finset.card_range] at card

/-- **`_kmalloc` comes back**, whatever `extend_heap` does. -/
theorem kmallocBy_returns (extend : Option Nat → Word → Slab × Option Nat) (request : Word)
    (list : Blocks s s.base blocks) (inside : ∀ r ∈ s.reserved, r.first + r.len ≤ pagesNr) :
    ∃ result, kmallocBy s extend request = some result := by
  unfold kmallocBy
  dsimp only
  split_ifs
  · exact ⟨_, rfl⟩
  · obtain ⟨⟨first, found⟩, searched⟩ : ∃ r, findBlock s (align4 request).toNat = some r :=
      walk_returns list.forward (length_le_maxBlocks list inside)
    rw [searched]
    cases found <;> exact ⟨_, rfl⟩

theorem kmalloc_returns (inv : HeapInv kernel others s live blocks) (request : Word) :
    ∃ result, kmalloc s request = some result := by
  exact kmallocBy_returns _ request inv.list fun r reserved =>
    (inv.pages.inside r (mem_append_right _ reserved)).trans (by decide)

/-- **`_kmalloc`** takes a block that fits, or else the heap grows. -/
theorem kmallocBy_cases {extend : Option Nat → Word → Slab × Option Nat} {result : Slab × Option Nat}
    (list : Blocks s s.base blocks) (ran : kmallocBy s extend request = some result) :
    ((findBlock s (align4 request).toNat).bind Prod.snd = none ∧
      growBy blocks.getLast? (extend blocks.getLast? (align4 request)) = result) ∨
    ∃ b ∈ blocks, (findBlock s (align4 request).toNat).bind Prod.snd = some b ∧ s.free b = true ∧
      (align4 request).toNat ≤ s.size b ∧ takeBlock s b (align4 request).toNat = result := by
  unfold kmallocBy at ran
  dsimp only at ran
  by_cases none : s.base = none
  · rw [if_pos none] at ran
    have forward := list.forward
    rw [none] at forward
    rw [forward.eq_nil_of_none, findBlock, none]
    exact .inl ⟨rfl, Option.some.inj ran⟩
  · rw [if_neg none] at ran
    obtain ⟨⟨first, found⟩, searched, ran⟩ := bind_eq_some_iff.mp ran
    rw [searched]
    rcases findBlock_spec list none searched with ⟨rfl, rfl⟩ | ⟨b, inB, rfl, free, large⟩
    · exact .inl ⟨rfl, Option.some.inj ran⟩
    · exact .inr ⟨b, inB, rfl, free, large, Option.some.inj ran⟩

/-- The free blocks have room for a request. -/
def Slab.hasRoom (s : Slab) (request : Word) : Bool :=
  ((findBlock s (align4 request).toNat).bind Prod.snd).isSome

/-- There are no pages by which the heap could grow for a request. -/
def Slab.NoPages (s : Slab) (request : Word) : Prop :=
  (getFreePages s.mm (align1kHb (atLeast (align4 request)) / 1024#32) gfpHigh).2 = 0#32

/-- A request that is no larger than a page without a header, that finds a block, or that finds
neither a block nor pages. -/
def Fits (s : Slab) (request : Word) : Prop :=
  request.toNat ≤ 1018 ∨ (request.toNat ≤ 2 ^ 32 - 4 ∧ s.hasRoom request = true) ∨
    (s.hasRoom request = false ∧ s.NoPages request)

instance (s : Slab) (request : Word) : Decidable (s.NoPages request) :=
  inferInstanceAs (Decidable (_ = _))

instance (s : Slab) (request : Word) : Decidable (Fits s request) :=
  inferInstanceAs (Decidable (_ ∨ _ ∨ _))

theorem growHeap_null {first : Option Nat} {m : Word} (inv : HeapInv kernel others s live blocks)
    (ran : growHeap s first m = (s', none)) : s' = s := by
  obtain ⟨got, isGot⟩ : ∃ got, getFreePages s.mm (align1kHb (atLeast m) / 1024#32) gfpHigh = got :=
    ⟨_, rfl⟩
  rw [growHeap, extendHeap_eq] at ran
  simp only [isGot] at ran
  split_ifs at ran with null
  · have same : { s with mm := got.1 } = s' := (Prod.ext_iff.mp ran).1
    obtain ⟨mm, page⟩ := got
    obtain rfl : mm = s.mm := inv.pages.getFreePages_null (isGot.trans (Prod.ext rfl null))
    exact same.symm
  · cases (Prod.ext_iff.mp ran).2

/-- Without pages the heap does not grow. -/
theorem growHeap_noPages {first : Option Nat} (none : s.NoPages request) :
    (growHeap s first (align4 request)).2 = Option.none := by
  unfold growHeap growBy extendHeap
  rw [Slab.NoPages] at none
  dsimp only
  rw [if_pos none]

/-- What a request leaves. -/
def served (live : List (Nat × Nat)) (request : Word) : Option Nat → List (Nat × Nat)
  | none => live
  | some p => (p, request.toNat) :: live

/-- When no block fits, a request that fits is small or gets nothing. -/
theorem growHeap_inv {result : Option Nat} (inv : HeapInv kernel others s live blocks)
    (positive : 0 < request.toNat) (fits : request.toNat ≤ 1018 ∨ result = none)
    (ran : growHeap s blocks.getLast? (align4 request) = (s', result)) :
    ∃ blocks', HeapInv kernel others s' (served live request result) blocks' := by
  rcases fits with small | rfl
  · rcases growHeap_served inv positive small with nothing | ⟨s₁, p, blocks', got, inv'⟩
    · obtain ⟨rfl, rfl⟩ := Prod.ext_iff.mp (nothing.symm.trans ran)
      exact ⟨blocks, inv⟩
    · obtain ⟨rfl, rfl⟩ := Prod.ext_iff.mp (got.symm.trans ran)
      exact ⟨blocks', inv'⟩
  · obtain rfl := growHeap_null inv ran
    exact ⟨blocks, inv⟩

/-- **`_kmalloc`** of a request that fits. -/
theorem kmalloc_inv {result : Option Nat} (inv : HeapInv kernel others s live blocks)
    (positive : 0 < request.toNat) (fits : Fits s request)
    (ran : kmalloc s request = some (s', result)) :
    ∃ blocks', HeapInv kernel others s' (served live request result) blocks' := by
  rcases kmallocBy_cases inv.list ran with ⟨nothing, grown⟩ | ⟨b, inB, found, free, large, taken⟩
  · refine growHeap_inv inv positive ?_ grown
    rcases fits with small | ⟨-, found⟩ | ⟨-, noPages⟩
    · exact .inl small
    · rw [Slab.hasRoom, nothing] at found
      cases found
    · exact .inr ((congrArg Prod.snd grown).symm.trans (growHeap_noPages noPages))
  · have noOverflow : request.toNat ≤ 2 ^ 32 - 4 := by
      rcases fits with small | ⟨small, -⟩ | ⟨full, -⟩
      · omega
      · exact small
      · rw [Slab.hasRoom, found] at full
        cases full
    have enough : request.toNat ≤ (align4 request).toNat := by
      rw [align4_toNat positive noOverflow]
      omega
    obtain ⟨s₁, p, blocks', got, done⟩ := takeBlock_served inv.list inv.live inB free large enough
    obtain ⟨rfl, rfl⟩ := Prod.ext_iff.mp (got.symm.trans taken)
    exact ⟨blocks', done.list, done.live, by rw [done.mm, done.reserved]; exact inv.pages⟩

/-- **`_kmalloc` when there is room**: no page is taken. -/
theorem kmalloc_room (inv : HeapInv kernel others s live blocks) (room : s.hasRoom request = true) :
    ∃ s' p, kmalloc s request = some (s', some p) ∧ s'.mm = s.mm := by
  obtain ⟨result, ran⟩ := kmalloc_returns inv request
  rcases kmallocBy_cases inv.list ran with ⟨nothing, -⟩ | ⟨b, inB, -, free, large, taken⟩
  · rw [Slab.hasRoom, nothing] at room
    cases room
  · obtain ⟨s', p, _, got, done⟩ := takeBlock_served inv.list inv.live inB free large le_rfl
    exact ⟨s', p, ran.trans (congrArg some (taken.symm.trans got)), done.mm⟩

theorem placeBlock_mm (s : Slab) (first : Option Nat) (p round n : Nat) :
    (placeBlock s first p round n).1.mm = s.mm := by
  have new := newBlock_from s first p round
  unfold placeBlock splitBlock
  split_ifs
  · exact (moveBase_linked ..).2.rest.1.trans new.mm
  · exact new.mm

/-- What a request for one page is asked of the page allocator, and what is kept of it. -/
theorem extendHeap_mm (s : Slab) (first : Option Nat)
    (small : align1kHb (atLeast request) = 1024#32) :
    ((extendHeap s first request).2 = none ↔ (getFreePages s.mm 1#32 gfpHigh).2 = 0#32) ∧
      (extendHeap s first request).1.mm = (getFreePages s.mm 1#32 gfpHigh).1 := by
  have one : 1024#32 / 1024#32 = 1#32 := by decide
  rw [extendHeap_eq]
  simp only [small, one]
  by_cases null : (getFreePages s.mm 1#32 gfpHigh).2 = 0#32
  · rw [if_pos null]
    exact ⟨iff_of_true rfl null, rfl⟩
  · rw [if_neg null]
    exact ⟨iff_of_false (some_ne_none _) null, placeBlock_mm ..⟩

/-- … and when there is none: a page is, if there is one. -/
theorem growHeap_mm (s : Slab) (first : Option Nat) (small : align1kHb (atLeast request) = 1024#32) :
    ((growHeap s first request).2 = none ↔ (getFreePages s.mm 1#32 gfpHigh).2 = 0#32) ∧
      (growHeap s first request).1.mm = (getFreePages s.mm 1#32 gfpHigh).1 := by
  obtain ⟨null, mm⟩ := extendHeap_mm s first small
  unfold growHeap growBy
  cases extended : extendHeap s first request with
  | mk s' b =>
    rw [extended] at null mm
    cases b with
    | none => exact ⟨null, mm⟩
    | some b =>
      refine ⟨iff_of_false (some_ne_none _) fun zero => some_ne_none b (null.mpr zero), ?_⟩
      refine Eq.trans ?_ mm
      dsimp only
      split <;> rfl

/-- **`_kmalloc` when there is no room** grows the heap. -/
theorem kmalloc_full (inv : HeapInv kernel others s live blocks) (full : s.hasRoom request = false) :
    ∃ first, kmalloc s request = some (growHeap s first (align4 request)) := by
  obtain ⟨result, ran⟩ := kmalloc_returns inv request
  rcases kmallocBy_cases inv.list ran with ⟨-, grown⟩ | ⟨b, -, found, -⟩
  · exact ⟨_, ran.trans (congrArg some grown.symm)⟩
  · rw [Slab.hasRoom, found] at full
    cases full

end Kmalloc

/-! ### `kfree` -/

section Kfree

variable {s s' : Slab} {blocks : List Nat} {live : List (Nat × Nat)} {b p : Nat} {kernel : Nat}
  {others : List Range}

section

variable (list : Blocks s s.base blocks) (old : Live s blocks live)
include list old

/-- **`fusion`** of a free block. -/
theorem fusion_rearranged (inB : b ∈ blocks) (free : s.free b = true) :
    ∃ blocks', Rearranged s blocks live (fusion s b) blocks' ∧ b ∈ blocks' ∧
      (fusion s b).free b = true := by
  rcases fusion_cases s b with same | ⟨n, follows, freeN, touch, fused⟩
  · rw [same]
    exact ⟨blocks, ⟨list, old, rfl, rfl, rfl⟩, inB, free⟩
  · obtain ⟨before, after, rfl⟩ := append_of_mem inB
    have last := list.next_eq.symm.trans follows
    obtain ⟨front, rfl⟩ := List.getLast?_eq_some_iff.mp last
    have ptr := list.ptr b inB
    rw [List.append_assoc, singleton_append] at list old ⊢
    have list' := list.fuse (ptr ▸ touch) fused
    have words := fused.words list'.nodup
    rw [← fused.base] at list'
    refine ⟨front ++ b :: after, ⟨list', old.transfer fun c inC isTaken => ?_, words, fused.mm,
      fused.reserved⟩, by simp, by rw [fused.free]; exact free⟩
    have notFree : ∀ d, s.free d = true → c ≠ d := fun d freeD same => by
      rw [same, freeD] at isTaken
      cases isTaken
    refine ⟨?_, by rw [fused.free]; exact isTaken, fused.sizes c (notFree b free)⟩
    simp only [mem_append, mem_cons] at inC ⊢
    exact inC.imp_right fun rest => rest.resolve_left (notFree n freeN)

theorem fusePrev_rearranged (inB : b ∈ blocks) (free : s.free b = true) :
    ∃ blocks', Rearranged s blocks live (fusePrev s b).1 blocks' ∧
      (fusePrev s b).2 ∈ blocks' ∧ (fusePrev s b).1.free (fusePrev s b).2 = true := by
  unfold fusePrev
  cases precedes : s.prev b with
  | none => exact ⟨blocks, ⟨list, old, rfl, rfl, rfl⟩, inB, free⟩
  | some p =>
    dsimp only
    split_ifs with freeP
    · have inP : p ∈ blocks := by
        obtain ⟨before, after, rfl⟩ := append_of_mem inB
        have head := list.prev_eq.symm.trans precedes
        obtain ⟨rest, rfl⟩ := List.head?_eq_some_iff.mp head
        simp
      exact fusion_rearranged list old inP freeP
    · exact ⟨blocks, ⟨list, old, rfl, rfl, rfl⟩, inB, free⟩

/-- **`_kfree`** from where the block is marked. -/
theorem release_rearranged (inB : b ∈ blocks) (free : s.free b = true) :
    ∃ blocks', Rearranged s blocks live (release s b) blocks' := by
  obtain ⟨blocks', first, inB', free'⟩ := fusePrev_rearranged list old inB free
  unfold release
  dsimp only
  cases (fusePrev s b).1.next (fusePrev s b).2 with
  | none => exact ⟨blocks', first⟩
  | some n =>
    dsimp only
    split_ifs
    · obtain ⟨joined, second, -, -⟩ := fusion_rearranged first.list first.live inB' free'
      exact ⟨joined, second.list, second.live, second.words.trans first.words, second.mm.trans first.mm,
        second.reserved.trans first.reserved⟩
    · exact ⟨blocks', first⟩

/-- **`_kfree`** of a live pointer. -/
theorem kfree_rearranged (alive : p ∈ live.map Prod.fst) :
    ∃ blocks', Rearranged s blocks (live.filter fun l => l.1 ≠ p) (kfree s p) blocks' := by
  obtain ⟨l, member, rfl⟩ := List.mem_map.mp alive
  obtain ⟨b, inB, place, taken, -⟩ := old.taken l member
  have header : l.1 - slabBlockSize = b := by omega
  have valid : l.1 ≠ 0 ∧ s.ptr b = l.1 := ⟨by simp only [slabBlockSize] at place; omega,
    (list.ptr b inB).trans place.symm⟩
  unfold kfree
  rw [header, if_pos valid, place]
  obtain ⟨blocks', done⟩ := release_rearranged (list.mark true) (old.giveBack (b := b)) inB
    (congrArg MemBlock.free (Slab.block_set.trans (if_pos rfl)))
  exact ⟨blocks', done.list, done.live, done.words.trans Slab.words_mark, done.mm, done.reserved⟩

end

theorem fusion_mm (s : Slab) (b : Nat) : (fusion s b).mm = s.mm := by
  rcases fusion_cases s b with same | ⟨n, -, -, -, fused⟩
  · rw [same]
  · exact fused.mm

theorem release_mm (s : Slab) (b : Nat) : (release s b).mm = s.mm := by
  have prev : (fusePrev s b).1.mm = s.mm := by
    unfold fusePrev
    split
    · rfl
    · split
      · exact fusion_mm ..
      · rfl
  unfold release
  dsimp only
  split
  · exact prev
  · split
    · exact (fusion_mm ..).trans prev
    · exact prev

/-- **`_kfree`** gives no page back. -/
theorem kfree_mm (s : Slab) (p : Nat) : (kfree s p).mm = s.mm := by
  unfold kfree
  dsimp only
  split
  · exact release_mm ..
  · rfl

end Kfree

/-! ### Runs -/

/-- The heap beside the pages that others have been given and the pointers that are live, each with the
size that was asked for. -/
structure Heap where
  slab : Slab
  others : List Range
  live : List (Nat × Nat)

/-- What happens in a run: memory is asked for and given back, and others use the page allocator. -/
inductive HeapEvent
  | kmalloc (size : Word)
  | kfree (p : Nat)
  | pages (event : PageEvent)

/-- A positive size is asked for, and live pointers are given back. -/
def heapStep (h : Heap) : HeapEvent → Option Heap
  | .kmalloc size =>
    if 0 < size.toNat then (kmalloc h.slab size).map fun r =>
      { h with slab := r.1, live := served h.live size r.2 }
    else none
  | .kfree p =>
    if p ∈ h.live.map Prod.fst then
      some { h with slab := kfree h.slab p, live := h.live.filter fun l => l.1 ≠ p }
    else none
  | .pages event => (pageStep (h.slab.mm, h.others) event).map fun r =>
      { h with slab := { h.slab with mm := r.1 }, others := r.2 }

/-- The heap before the first request. -/
def initHeap (bssEnd : Word) : Heap :=
  ⟨⟨none, fun _ => ⟨0, none, none, false, 0⟩, initMemTable bssEnd, []⟩, [], []⟩

/-- The requests of the run fit. -/
def RequestFits (h : Heap) : HeapEvent → Prop
  | .kmalloc size => Fits h.slab size
  | _ => True

instance (h : Heap) : DecidablePred (RequestFits h)
  | .kmalloc _ => inferInstanceAs (Decidable (Fits _ _))
  | .kfree _ | .pages _ => inferInstanceAs (Decidable True)

/-- The header of a block, and the payload that a pointer points to. -/
def header (b : Nat) : Range := ⟨b, slabBlockSize⟩
/-- The payload that a pointer points to. -/
def Slab.payload (s : Slab) (p : Nat) : Range := ⟨p, s.size (p - slabBlockSize)⟩

/-- The live pointers have what they asked for, and nobody else has it. -/
structure Sound (h : Heap) (blocks : List Nat) : Prop where
  chain : Chain h.slab.prev h.slab.base blocks
  enough : ∀ l ∈ h.live, ∃ b ∈ blocks, l.1 = b + slabBlockSize ∧ l.2 ≤ h.slab.size b
  owned : ∀ b ∈ blocks, ∀ i, (header b).Holds i ∨ (h.slab.payload (b + slabBlockSize)).Holds i →
    ∃ r ∈ h.slab.reserved, r.Holds (i / pageLen)
  marked : ∀ r ∈ h.slab.reserved, ∀ page, r.Holds page → bitOn h.slab.mm.memMap page = true
  payloads : h.live.Pairwise fun l l' => (h.slab.payload l.1).Apart (h.slab.payload l'.1)
  headers : ∀ l ∈ h.live, ∀ b ∈ blocks, (h.slab.payload l.1).Apart (header b)

section Runs

variable {h h' : Heap} {kernel : Nat} {blocks : List Nat}

theorem heapStep_inv {event : HeapEvent} (inv : HeapInv kernel h.others h.slab h.live blocks)
    (fits : RequestFits h event) (stepped : heapStep h event = some h') :
    ∃ blocks', HeapInv kernel h'.others h'.slab h'.live blocks' := by
  cases event with
  | kmalloc size =>
    unfold heapStep at stepped
    dsimp only at stepped
    split_ifs at stepped with positive
    obtain ⟨⟨s', result⟩, ran, rfl⟩ := map_eq_some_iff.mp stepped
    exact kmalloc_inv inv positive fits ran
  | kfree p =>
    unfold heapStep at stepped
    dsimp only at stepped
    split_ifs at stepped with alive
    cases stepped
    obtain ⟨blocks', done⟩ := kfree_rearranged inv.list inv.live alive
    exact ⟨blocks', done.list, done.live, by rw [done.mm, done.reserved]; exact inv.pages⟩
  | pages event =>
    obtain ⟨⟨mm, others⟩, ran, rfl⟩ := map_eq_some_iff.mp stepped
    exact ⟨blocks, ⟨inv.list.forward, inv.list.backward, inv.list.ptr, inv.list.apart, inv.list.owned⟩,
      ⟨inv.live.taken, inv.live.once⟩, pageStep_inv inv.pages ran⟩

theorem holds_extent {s : Slab} {b i : Nat}
    (holds : (header b).Holds i ∨ (s.payload (b + slabBlockSize)).Holds i) : (s.extent b).Holds i := by
  simp only [header, Slab.payload, Slab.extent, Range.Holds, Nat.add_sub_cancel,
    slabBlockSize] at holds ⊢
  omega

theorem HeapInv.sound (inv : HeapInv kernel h.others h.slab h.live blocks) : Sound h blocks where
  chain := inv.list.forward
  enough l member := by
    obtain ⟨b, inB, place, -, enough⟩ := inv.live.taken l member
    exact ⟨b, inB, place, enough⟩
  owned b inB i holds := inv.list.owned b inB i (holds_extent holds)
  marked r member page holds := by
    have among : r ∈ kernelPages kernel :: reservedPage :: (h.others ++ h.slab.reserved) := by
      simp [member]
    exact (inv.pages.tiled.exact page (inv.pages.within r among page holds)).mpr ⟨r, among, holds⟩
  payloads := by
    refine List.Pairwise.imp_of_mem (fun inL inL' ne i first second => ?_)
      (pairwise_map.mp inv.live.once)
    obtain ⟨b, inB, place, -, -⟩ := inv.live.taken _ inL
    obtain ⟨c, inC, place', -, -⟩ := inv.live.taken _ inL'
    rw [place] at first ne
    rw [place'] at second ne
    exact inv.list.apart b inB c inC (fun same => ne (same ▸ rfl)) i (holds_extent (.inr first))
      (holds_extent (.inr second))
  headers l member c inC i first second := by
    obtain ⟨b, inB, place, -, -⟩ := inv.live.taken l member
    rw [place] at first
    by_cases same : b = c
    · subst same
      simp only [header, Slab.payload, Range.Holds] at first second
      omega
    · exact inv.list.apart b inB c inC same i (holds_extent (.inr first)) (holds_extent (.inl second))

theorem initHeap_inv {bssEnd : Word} (below : bssEnd.toNat < 127 * 1024) :
    HeapInv (bssEnd.toNat / 1024 + 1) (initHeap bssEnd).others (initHeap bssEnd).slab
      (initHeap bssEnd).live [] where
  list := ⟨rfl, rfl, nofun, nofun, nofun⟩
  live := ⟨nofun, nodup_nil⟩
  pages := PagesInv.init below

/-- **The kernel heap is sound** in every run whose requests fit. -/
theorem heap_sound {bssEnd : Word} {events : List HeapEvent} (below : bssEnd.toNat < 127 * 1024)
    (fits : Meets heapStep RequestFits (initHeap bssEnd) events)
    (ran : runFrom heapStep (initHeap bssEnd) events = some h) : ∃ blocks, Sound h blocks := by
  obtain ⟨blocks, inv⟩ := runFrom_invariant
    (fun h : Heap => ∃ blocks, HeapInv (bssEnd.toNat / 1024 + 1) h.others h.slab h.live blocks)
    (fun h event h' inv fits stepped => by
      obtain ⟨blocks, inv⟩ := inv
      exact heapStep_inv inv fits stepped)
    events ⟨[], initHeap_inv below⟩ fits ran
  exact ⟨blocks, inv.sound⟩

/-- Two pages of the heap are given back and taken again by one request. -/
def fusedRun : List HeapEvent :=
  [.kmalloc 1018#32, .kmalloc 1018#32, .kfree 129030, .pages (.get 100#32 gfpNorm), .kfree 128006,
    .kmalloc 1500#32]

theorem fusedRun_sound : ∃ h blocks, runFrom heapStep (initHeap 2000#32) fusedRun = some h ∧
    h.live = [(128548, 1500)] ∧ Sound h blocks := by
  have live : (runFrom heapStep (initHeap 2000#32) fusedRun).map (fun h => h.live) =
      some [(128548, 1500)] := by decide +kernel
  obtain ⟨h, ran, live⟩ := map_eq_some_iff.mp live
  obtain ⟨blocks, sound⟩ := heap_sound (by decide) (by decide +kernel) ran
  exact ⟨h, blocks, ran, live, sound⟩

/-- **`_kmalloc` comes back** in every run whose requests fit, whatever is asked for next: the list
of blocks has an end. -/
theorem kmalloc_comes_back {bssEnd : Word} {events : List HeapEvent} (below : bssEnd.toNat < 127 * 1024)
    (fits : Meets heapStep RequestFits (initHeap bssEnd) events)
    (ran : runFrom heapStep (initHeap bssEnd) events = some h) (size : Word) :
    ∃ result, kmalloc h.slab size = some result := by
  obtain ⟨blocks, inv⟩ := runFrom_invariant
    (fun h : Heap => ∃ blocks, HeapInv (bssEnd.toNat / 1024 + 1) h.others h.slab h.live blocks)
    (fun h event h' inv fits stepped => by
      obtain ⟨blocks, inv⟩ := inv
      exact heapStep_inv inv fits stepped)
    events ⟨[], initHeap_inv below⟩ fits ran
  exact kmalloc_returns inv size

theorem fusedRun_comes_back : ∃ h, runFrom heapStep (initHeap 2000#32) fusedRun = some h ∧
    ∃ result, kmalloc h.slab 0x80000000#32 = some result := by
  obtain ⟨h, ran⟩ := isSome_iff_exists.mp (by decide +kernel :
    (runFrom heapStep (initHeap 2000#32) fusedRun).isSome = true)
  exact ⟨h, ran, kmalloc_comes_back (by decide) (by decide +kernel) ran _⟩

/-- **A request of more than a page gets words of a page that nobody reserved for it.** -/
theorem kmalloc_overruns : ∃ h, runFrom heapStep (initHeap 2000#32) [.kmalloc 1500#32] = some h ∧
    h.live = [(129572, 1500)] ∧ h.slab.reserved = [⟨126, 1⟩] ∧ ∀ blocks, ¬ Sound h blocks := by
  have after : (runFrom heapStep (initHeap 2000#32) [.kmalloc 1500#32]).map
      (fun h => (h.live, h.slab.reserved, h.slab.size 129566)) =
        some ([(129572, 1500)], [⟨126, 1⟩], 1500) := by decide +kernel
  obtain ⟨h, ran, after⟩ := map_eq_some_iff.mp after
  obtain ⟨live, rest⟩ := Prod.mk.inj after
  obtain ⟨reserved, size⟩ := Prod.mk.inj rest
  refine ⟨h, ran, live, reserved, fun blocks sound => ?_⟩
  obtain ⟨b, inB, place, -⟩ := sound.enough (129572, 1500) (live ▸ mem_singleton_self _)
  obtain rfl : b = 129566 := by
    simp only [slabBlockSize] at place
    omega
  -- the last word of the payload
  have last : (h.slab.payload (129566 + slabBlockSize)).Holds 131071 := by
    simp only [Slab.payload, Range.Holds, Nat.add_sub_cancel, size]
    decide
  obtain ⟨r, member, holds⟩ := sound.owned 129566 inB 131071 (.inr last)
  rw [reserved, mem_singleton] at member
  subst member
  exact absurd holds (by simp only [Range.Holds]; decide)

end Runs

end Winix.Kernel
