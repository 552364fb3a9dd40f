/-
**Several queues threaded through one `next` field.**

A family of queues shares the cells of one heap: a cell has one `next` field, so it can be in one
queue only. `Threads next head cells` says that the queue `i` is the null-terminated chain `cells i`
and that no cell is in two queues; `Queues next head tail cells` adds a pointer to the last cell.

* `Threads.push`, `Threads.pop`, `Threads.snoc` change one queue, as the writes a program makes;
* `Queues.pushHead`, `Queues.pushEmpty`, `Queues.pushTail`, `Queues.popHead` do so with the last
  pointer kept up to date;
* `mem_update` says which cells a family holds after one queue has changed.
-/

import Winix.Lib.Chain

namespace Lib

open Function List

variable {α ι : Type*}
variable {cells : ι → List α}

theorem mem_update [DecidableEq ι] {list : List α} {cell : α} {i j : ι} :
    cell ∈ update cells i list j ↔ (j = i ∧ cell ∈ list) ∨ (j ≠ i ∧ cell ∈ cells j) := by
  by_cases same : j = i
  · subst same
    simp
  · simp [same]

/-- The cells of a family after one has been added to one of its queues. -/
theorem exists_mem_update_of_added [DecidableEq ι] {list : List α} {cell other : α} {i : ι}
    (added : ∀ other, other ∈ list ↔ other = cell ∨ other ∈ cells i) :
    (∃ j, other ∈ update cells i list j) ↔ other = cell ∨ ∃ j, other ∈ cells j := by
  constructor
  · rintro ⟨j, member⟩
    rcases mem_update.mp member with ⟨-, member⟩ | ⟨-, member⟩
    · exact ((added other).mp member).imp_right fun member => ⟨i, member⟩
    · exact .inr ⟨j, member⟩
  · rintro (rfl | ⟨j, member⟩)
    · exact ⟨i, mem_update.mpr (.inl ⟨rfl, (added other).mpr (.inl rfl)⟩)⟩
    · refine ⟨j, mem_update.mpr ?_⟩
      by_cases same : j = i
      · exact .inl ⟨same, (added other).mpr (.inr (same ▸ member))⟩
      · exact .inr ⟨same, member⟩

/-- Queues that share the cells of one heap. -/
structure Threads (next : α → Option α) (head : ι → Option α) (cells : ι → List α) : Prop where
  chain : ∀ i, Chain next (head i) (cells i)
  apart : ∀ {cell i j}, cell ∈ cells i → cell ∈ cells j → i = j

namespace Threads

variable {next : α → Option α} {head : ι → Option α} {cells : ι → List α} {cell : α} {i : ι}

variable (threads : Threads next head cells)
include threads
variable {rest : List α}

theorem cells_of_head_none (empty : head i = none) : cells i = [] := by
  have chain := threads.chain i
  rw [empty] at chain
  exact chain.eq_nil_of_none

theorem cells_of_head_some (first : head i = some cell) :
    ∃ rest, cells i = cell :: rest ∧ Chain next (next cell) rest := by
  have chain := threads.chain i
  rw [first] at chain
  exact chain.eq_cons_of_some

theorem update_of_notMem [DecidableEq α] {target : Option α} (outside : ∀ j, cell ∉ cells j) :
    Threads (update next cell target) head cells :=
  ⟨fun j => (threads.chain j).update_of_notMem (outside j), threads.apart⟩

/-- Cells of a queue after one new cell has been added to it are in no other queue. -/
theorem own_of_outside {list : List α} (outside : ∀ j, cell ∉ cells j)
    (subset : ∀ {other}, other ∈ list → other = cell ∨ other ∈ cells i) {other : α} {j : ι}
    (member : other ∈ list) (inOther : other ∈ cells j) : j = i := by
  rcases subset member with rfl | member
  · exact absurd inOther (outside j)
  · exact threads.apart inOther member

variable [DecidableEq ι]

/-- Changing one queue to cells that are in no other queue keeps the queues apart. -/
theorem apart_update {list : List α} (own : ∀ {cell j}, cell ∈ list → cell ∈ cells j → j = i)
    {j j' : ι} (first : cell ∈ update cells i list j) (second : cell ∈ update cells i list j') :
    j = j' := by
  rw [mem_update] at first second
  rcases first with ⟨rfl, inList⟩ | ⟨other, member⟩ <;>
    rcases second with ⟨rfl, inList'⟩ | ⟨other', member'⟩
  · rfl
  · exact absurd (own inList member') other'
  · exact absurd (own inList' member) other
  · exact threads.apart member member'

/-- **Pop**: the queue starts at the second cell. -/
theorem pop (shape : cells i = cell :: rest) :
    Threads next (update head i (next cell)) (update cells i rest) := by
  refine ⟨fun j => ?_, fun first second => threads.apart_update ?_ first second⟩
  · by_cases same : j = i
    · subst same
      have chain := threads.chain j
      rw [shape] at chain
      simpa only [update_self] using chain.2
    · simpa only [update_of_ne same] using threads.chain j
  · intro other j member inOther
    exact threads.apart inOther (shape ▸ mem_cons_of_mem _ member)

theorem notMem_of_pop (shape : cells i = cell :: rest) (j : ι) : cell ∉ update cells i rest j := by
  intro member
  have chain := threads.chain i
  rw [shape] at chain
  rcases mem_update.mp member with ⟨-, inRest⟩ | ⟨other, inOther⟩
  · exact (nodup_cons.mp chain.nodup).1 inRest
  · exact other (threads.apart inOther (shape ▸ mem_cons_self))

theorem exists_mem_pop {other : α} (shape : cells i = cell :: rest) :
    (∃ j, other ∈ update cells i rest j) ↔ other ≠ cell ∧ ∃ j, other ∈ cells j := by
  constructor
  · rintro ⟨j, member⟩
    refine ⟨fun same : other = cell => threads.notMem_of_pop shape j (same ▸ member), ?_⟩
    rcases mem_update.mp member with ⟨-, member⟩ | ⟨-, member⟩
    · exact ⟨i, shape ▸ mem_cons_of_mem _ member⟩
    · exact ⟨j, member⟩
  · rintro ⟨ne, j, member⟩
    refine ⟨j, mem_update.mpr ?_⟩
    by_cases same : j = i
    · subst same
      rw [shape] at member
      exact .inl ⟨rfl, (mem_cons.mp member).resolve_left ne⟩
    · exact .inr ⟨same, member⟩

variable [DecidableEq α]

/-- **Push**: a new first cell. -/
theorem push (outside : ∀ j, cell ∉ cells j) :
    Threads (update next cell (head i)) (update head i (some cell))
      (update cells i (cell :: cells i)) := by
  refine ⟨fun j => ?_, fun first second => threads.apart_update
    (threads.own_of_outside outside mem_cons.mp) first second⟩
  by_cases same : j = i
  · subst same
    simp only [update_self]
    exact (threads.chain j).push (outside j)
  · simp only [update_of_ne same]
    exact (threads.chain j).update_of_notMem (outside j)

/-- **Snoc**: a new last cell. -/
theorem snoc {last : α} (outside : ∀ j, cell ∉ cells j) (lastCell : (cells i).getLast? = some last) :
    Threads (update (update next last (some cell)) cell none) head
      (update cells i (cells i ++ [cell])) := by
  have shape : cells i = (cells i).dropLast ++ [last] :=
    (dropLast_append_getLast? last lastCell).symm
  have inQueue : last ∈ cells i := mem_of_getLast? lastCell
  refine ⟨fun j => ?_, fun first second => threads.apart_update
    (threads.own_of_outside outside fun member => ?_) first second⟩
  · by_cases same : j = i
    · subst same
      have chain := threads.chain j
      rw [shape] at chain
      rw [update_self, shape]
      exact chain.snoc (shape ▸ outside j)
    · rw [update_of_ne same]
      have notLast : last ∉ cells j := fun member => same (threads.apart member inQueue)
      exact ((threads.chain j).update_of_notMem notLast).update_of_notMem (outside j)
  · rcases mem_append.mp member with member | member
    · exact .inr member
    · exact .inl (mem_singleton.mp member)

end Threads

/-- Queues that share the cells of one heap, with a pointer to the last cell of each. -/
structure Queues (next : α → Option α) (head tail : ι → Option α) (cells : ι → List α) : Prop
    extends Threads next head cells where
  last : ∀ i, tail i = (cells i).getLast?

namespace Queues

variable {next : α → Option α} {head tail : ι → Option α} {cells : ι → List α} {cell : α} {i : ι}

variable (queues : Queues next head tail cells)
include queues

theorem last_update [DecidableEq ι] {list : List α} {target : Option α}
    (own : target = list.getLast?) (j : ι) :
    update tail i target j = (update cells i list j).getLast? := by
  by_cases same : j = i
  · subst same
    simpa only [update_self] using own
  · simpa only [update_of_ne same] using queues.last j

variable [DecidableEq ι] [DecidableEq α]

section

variable (outside : ∀ j, cell ∉ cells j)
include outside

/-- **Adding a cell at the head.** -/
theorem pushHead :
    Queues (update next cell (head i)) (update head i (some cell))
      (update tail i (if head i = none then some cell else tail i))
      (update cells i (cell :: cells i)) := by
  refine ⟨queues.push outside, queues.last_update ?_⟩
  cases first : head i with
  | none => simp [queues.cells_of_head_none first]
  | some other =>
    obtain ⟨rest, shape, -⟩ := queues.cells_of_head_some first
    simp [queues.last i, shape, getLast?_cons_cons]

/-- **Adding a cell to an empty queue.** -/
theorem pushEmpty (empty : head i = none) :
    Queues (update next cell none) (update head i (some cell))
      (update tail i (some cell)) (update cells i (cells i ++ [cell])) := by
  have pushed := queues.pushHead (i := i) outside
  rw [empty, if_pos rfl, queues.cells_of_head_none empty] at pushed
  rw [queues.cells_of_head_none empty]
  exact pushed

/-- **Adding a cell at the tail** of a queue that is not empty. -/
theorem pushTail {last : α} (lastCell : tail i = some last) :
    Queues (update (update next last (some cell)) cell none) head
      (update tail i (some cell)) (update cells i (cells i ++ [cell])) :=
  ⟨queues.snoc outside ((queues.last i).symm.trans lastCell),
    queues.last_update List.getLast?_concat.symm⟩

end

/-- **Removing the head.** -/
theorem popHead {rest : List α} (first : head i = some cell) (shape : cells i = cell :: rest) :
    Queues (update next cell none)
      (update head i (if head i = tail i then none else next cell))
      (update tail i (if head i = tail i then none else tail i))
      (update cells i rest) := by
  have chain := queues.chain i
  rw [first, shape] at chain
  have notRest : cell ∉ rest := (nodup_cons.mp chain.nodup).1
  have popped : Threads (update next cell none) (update head i (next cell)) (update cells i rest) :=
    (queues.pop shape).update_of_notMem (queues.notMem_of_pop shape)
  -- the head is the last cell exactly when nothing follows it
  by_cases empty : rest = []
  · have single : head i = tail i := by rw [first, queues.last i, shape, empty]; rfl
    have ended : next cell = none := by simpa [empty] using chain.2
    rw [if_pos single, if_pos single]
    rw [ended] at popped
    exact ⟨popped, queues.last_update (by rw [empty]; rfl)⟩
  · have longer : head i ≠ tail i := by
      rw [first, queues.last i, shape, getLast?_cons_of_ne_nil empty, getLast?_eq_some_getLast empty]
      exact fun same => notRest (Option.some.inj same ▸ getLast_mem empty)
    rw [if_neg longer, if_neg longer]
    refine ⟨popped, queues.last_update ?_⟩
    rw [queues.last i, shape, getLast?_cons_of_ne_nil empty]

end Queues

end Lib
