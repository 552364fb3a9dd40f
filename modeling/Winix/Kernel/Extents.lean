/-
**The kernel heap on extents.**

`winix/slab.c` over another page allocator: for each extension of the heap it hands out a run of
pages that is as long as `extend_heap` has rounded the request, apart from the earlier ones, or
nothing. `reserved` is then the list of the extents that have been obtained.

* **`slab_conserves`**: in every run the blocks are one list, linked both ways, that has every live
  pointer, and they have as many words as the extents; and the next request comes back.
-/

import Winix.Kernel.Slab

namespace Winix.Kernel

open Lib List Option

/-- `round_s`. -/
def roundS (n : Word) : Nat := (align1kHb (atLeast n)).toNat

section

variable (s : Slab)

/-- `extend_heap` with an extent that starts with this page. -/
def extendAt (page first : Option Nat) (n : Word) : Slab × Option Nat :=
  match page with
  | none => (s, none)
  | some page =>
    let placed := placeBlock { s with reserved := ⟨page, roundS n / pageLen⟩ :: s.reserved } first
      (page * pageLen) (roundS n) (atLeast n).toNat
    (placed.1, some placed.2)

/-- The extent is not empty, it lies in the memory, and apart from the earlier ones. -/
def FreshExtent (n : Word) (page : Nat) : Prop :=
  0 < page ∧ 0 < roundS n ∧ page + roundS n / pageLen ≤ pagesNr ∧
    ∀ r ∈ s.reserved, page + roundS n / pageLen ≤ r.first ∨ r.first + r.len ≤ page

instance (n : Word) : DecidablePred (FreshExtent s n) :=
  fun _ => inferInstanceAs (Decidable (_ ∧ _ ∧ _))

end

/-- The calls of the heap, with the page that an extension gets. -/
inductive ExtentEvent
  | kmalloc (size : Word) (page : Option Nat)
  | kfree (p : Nat)

/-- A step of the heap and the pointers that are live. -/
def extentStep (h : Slab × List Nat) : ExtentEvent → Option (Slab × List Nat)
  | .kmalloc size page =>
    if ∀ first ∈ page, FreshExtent h.1 (align4 size) first then
      (kmallocBy h.1 (extendAt h.1 page) size).map fun r => (r.1, r.2.toList ++ h.2)
    else none
  | .kfree p => if p ∈ h.2 then some (kfree h.1 p, h.2.filter (· ≠ p)) else none

/-- The blocks are linked both ways and have the words of the extents. -/
structure Conserved (s : Slab) (live blocks : List Nat) : Prop where
  chain : Chain s.prev s.base blocks
  inverse : ∀ b ∈ blocks, ∀ c ∈ blocks, s.prev b = some c ↔ s.next c = some b
  base : ∀ b ∈ s.base, s.next b = none
  live : ∀ p ∈ live, ∃ b ∈ blocks, p = b + slabBlockSize
  total : s.words blocks = (s.reserved.map fun r => r.len * pageLen).sum

/-- What every state of a run satisfies. -/
structure ExtentInv (s : Slab) (live blocks : List Nat) : Prop where
  list : Blocks s s.base blocks
  live : Live s blocks (live.map (·, 0))
  total : s.words blocks = (s.reserved.map fun r => r.len * pageLen).sum
  inside : ∀ r ∈ s.reserved, r.first + r.len ≤ pagesNr

section

variable {s s' : Slab} {live blocks : List Nat} {h h' : Slab × List Nat}

theorem roundS_pages (n : Word) : roundS n / pageLen * pageLen = roundS n := by
  have least : 0 < (atLeast n).toNat := by
    unfold atLeast
    split
    · decide
    · rename_i large
      simp only [slabBlockSize] at large
      omega
  rw [roundS, align1kHb_toNat least, pageLen]
  omega

/-- **`_kmalloc`.** -/
theorem kmalloc_extents {size : Word} {page result : Option Nat} (inv : ExtentInv s live blocks)
    (fresh : ∀ first ∈ page, FreshExtent s (align4 size) first)
    (ran : kmallocBy s (extendAt s page) size = some (s', result)) :
    ∃ blocks', ExtentInv s' (result.toList ++ live) blocks' := by
  rcases kmallocBy_cases inv.list ran with ⟨-, grown⟩ | ⟨b, inB, -, free, large, taken⟩
  · cases page with
    | none =>
      cases grown
      exact ⟨blocks, inv⟩
    | some page =>
      obtain ⟨-, nonempty, inside, apart⟩ := fresh page rfl
      have whole := roundS_pages (align4 size)
      unfold pageLen at whole
      obtain ⟨s₁, b, blocks', placing, placed, -, reserved⟩ := placeBlock_placed
        (p := page * pageLen) (n := (atLeast (align4 size)).toNat) (roundS (align4 size))
        inv.list inv.live (by unfold slabBlockSize; omega)
        (fun c inC i here there => by
          obtain ⟨r, inR, holds⟩ := inv.list.owned c inC i there
          have := apart r inR
          simp only [Range.Holds, pageLen] at *
          omega)
        s.mm (subset_cons_self ⟨page, roundS (align4 size) / pageLen⟩ _)
        (fun i holds => ⟨_, mem_cons_self, by
          simp only [Range.Holds, pageLen] at *
          omega⟩)
      obtain ⟨s₂, p, handed, list, live', words, -, reserved'⟩ :=
        placed.grown inv.list.last_none_iff (Nat.zero_le _)
      have extended : extendAt s (some page) blocks.getLast? (align4 size) = (s₁, some b) := by
        rw [extendAt, placing]
      rw [extended, handed] at grown
      cases grown
      refine ⟨blocks', list, live', ?_, ?_⟩
      · rw [words, inv.total, reserved', reserved, map_cons, sum_cons, roundS_pages, Nat.add_comm]
      · rw [reserved', reserved]
        exact forall_mem_cons.mpr ⟨inside, inv.inside⟩
  · obtain ⟨s₁, p, blocks', got, done⟩ :=
      takeBlock_served inv.list inv.live inB free large (Nat.zero_le _)
    rw [got] at taken
    cases taken
    exact ⟨blocks', done.list, done.live, by rw [done.words, done.reserved, inv.total],
      done.reserved ▸ inv.inside⟩

theorem extentStep_inv {event : ExtentEvent} (inv : ExtentInv h.1 h.2 blocks)
    (ran : extentStep h event = some h') : ∃ blocks', ExtentInv h'.1 h'.2 blocks' := by
  cases event with
  | kmalloc size page =>
    unfold extentStep at ran
    dsimp only at ran
    split_ifs at ran with fresh
    obtain ⟨⟨s', result⟩, ran', rfl⟩ := map_eq_some_iff.mp ran
    exact kmalloc_extents inv fresh ran'
  | kfree p =>
    unfold extentStep at ran
    dsimp only at ran
    split_ifs at ran with alive
    cases ran
    obtain ⟨blocks', done⟩ := kfree_rearranged (p := p) inv.list inv.live (by simpa using alive)
    have live := done.live
    rw [List.filter_map] at live
    exact ⟨blocks', done.list, live, by rw [done.words, done.reserved, inv.total],
      done.reserved ▸ inv.inside⟩

theorem ExtentInv.conserved (inv : ExtentInv s live blocks) : Conserved s live blocks where
  chain := inv.list.forward
  inverse b inB c inC := by
    constructor
    · intro precedes
      obtain ⟨before, after, rfl⟩ := append_of_mem inB
      obtain ⟨rest, rfl⟩ := List.head?_eq_some_iff.mp (inv.list.prev_eq.symm.trans precedes)
      have list := inv.list
      rw [append_cons] at list
      rw [list.next_eq, getLast?_concat]
    · intro follows
      obtain ⟨before, after, rfl⟩ := append_of_mem inC
      obtain ⟨front, rfl⟩ := List.getLast?_eq_some_iff.mp (inv.list.next_eq.symm.trans follows)
      have list := inv.list
      rw [← append_cons] at list
      exact list.prev_eq
  base b isBase := by
    obtain ⟨rest, rfl, -⟩ := (isBase ▸ inv.list.forward).eq_cons_of_some
    have list : Blocks s s.base ([] ++ b :: rest) := inv.list
    exact list.next_eq
  live p member := by
    obtain ⟨b, inB, place, -⟩ := inv.live.taken (p, 0) (by simpa using member)
    exact ⟨b, inB, place⟩
  total := inv.total

/-- **The heap conserves its memory** in every run, and every request comes back. -/
theorem slab_conserves {bssEnd : Word} {events : List ExtentEvent}
    (ran : runFrom extentStep ((initHeap bssEnd).slab, []) events = some (s, live)) :
    (∃ blocks, Conserved s live blocks) ∧
      ∀ size page, (kmallocBy s (extendAt s page) size).isSome = true := by
  have start : ExtentInv (initHeap bssEnd).slab [] [] :=
    ⟨⟨rfl, rfl, nofun, nofun, nofun⟩, ⟨nofun, nodup_nil⟩, rfl, nofun⟩
  obtain ⟨blocks, inv⟩ := runFrom_invariant
    (fun h : Slab × List Nat => ∃ blocks, ExtentInv h.1 h.2 blocks)
    (fun h event h' inv _ stepped => by
      obtain ⟨blocks, inv⟩ := inv
      exact extentStep_inv inv stepped)
    events ⟨[], start⟩ (Meets.of_forall (fun _ _ => trivial) _ _) ran
  refine ⟨⟨blocks, inv.conserved⟩, fun size page => ?_⟩
  exact isSome_iff_exists.mpr (kmallocBy_returns _ size inv.list inv.inside)

end

/-- Two extents of three pages and of one, and all of it is given back: one block is left. -/
theorem two_extents_conserved : ∃ s blocks,
    runFrom extentStep ((initHeap 2000#32).slab, [])
      [.kmalloc 100#32 (some 100), .kmalloc 3000#32 (some 97),
      .kfree 99400, .kfree 103324] = some (s, []) ∧ s.size 99328 = 4090 ∧ Conserved s [] blocks := by
  obtain ⟨⟨s, live⟩, ran, rfl, size⟩ := exists_of_any (by decide +kernel :
    (runFrom extentStep ((initHeap 2000#32).slab, [])
      [.kmalloc 100#32 (some 100), .kmalloc 3000#32 (some 97),
      .kfree 99400, .kfree 103324]).any
        (fun h => decide (h.2 = [] ∧ h.1.size 99328 = 4090)) = true)
  obtain ⟨⟨blocks, conserved⟩, -⟩ := slab_conserves ran
  exact ⟨s, blocks, ran, size, conserved⟩

end Winix.Kernel
