/-
**Doubly linked lists.**

A heap of cells with a `next` and a `prev` pointer, and pointers to both ends. `Linked d cells` says
that following `next` from the rear visits exactly the cells of the list and that following `prev`
from the front visits them in the opposite order.

The operations are the C idioms, in the order of their assignments: `remove` (unlink a cell and move
the ends that pointed to it), `takeRear` and `addFront`.

* **`Linked.remove`**, **`Linked.takeRear`**, **`Linked.addFront`**: what each does to the list.
  `takeRear` does not move the front and `addFront` writes through it, so the last two need a cell
  that stays.
-/

import Winix.Lib.Chain

namespace Lib

open Function List

variable {α : Type*}

namespace Chain

variable {next : α → Option α} {pointer : Option α}
variable {before after : List α} {cell : α}

theorem head?_eq {cells : List α} (chain : Chain next pointer cells) : pointer = cells.head? := by
  cases cells with
  | nil => exact chain
  | cons cell cells => exact chain.1

theorem next_eq (chain : Chain next pointer (before ++ cell :: after)) : next cell = after.head? :=
  (drop chain).2.head?_eq

theorem head_ne {first cell : α} (chain : Chain next pointer (before ++ first :: cell :: after)) :
    pointer ≠ some cell := by
  have nodup := chain.nodup
  rw [chain.head?_eq]
  intro same
  cases before with
  | nil => simp_all
  | cons head before => simp_all

/-- **Redirecting** a cell to another chain. -/
theorem redirect [DecidableEq α] {before after after' : List α} {target : Option α}
    (chain : Chain next pointer (before ++ cell :: after)) (rest : Chain next target after')
    (fresh : cell ∉ after') :
    Chain (update next cell target) pointer (before ++ cell :: after') := by
  induction before generalizing pointer with
  | nil =>
    refine ⟨chain.1, ?_⟩
    rw [update_self]
    exact rest.update_of_notMem fresh
  | cons first before ih =>
    have other : first ≠ cell := fun same => (nodup_cons.mp chain.nodup).1
      (same ▸ mem_append_right _ mem_cons_self)
    refine ⟨chain.1, ?_⟩
    rw [update_of_ne other]
    exact ih chain.2

theorem bypass [DecidableEq α] {cell out : α}
    (chain : Chain next pointer (before ++ cell :: out :: after)) :
    Chain (update next cell (next out)) pointer (before ++ cell :: after) :=
  chain.redirect (drop chain).2.2 fun member =>
    (nodup_cons.mp (drop chain).nodup).1 (mem_cons_of_mem _ member)

theorem cut [DecidableEq α] (chain : Chain next pointer (before ++ cell :: after)) :
    Chain (update next cell none) pointer (before ++ [cell]) := chain.redirect rfl not_mem_nil

/-- **Unlinking** in one direction: the cell before points past the cell, or the first pointer
moves. -/
theorem unlink [DecidableEq α] (chain : Chain next pointer (before ++ cell :: after)) :
    Chain (match before.getLast? with
        | none => next
        | some last => update next last (next cell))
      (if pointer = some cell then next cell else pointer) (before ++ after) := by
  rcases eq_nil_or_concat before with rfl | ⟨front, last, rfl⟩
  · rw [if_pos chain.1]
    exact chain.2
  · simp only [concat_eq_append, append_assoc, cons_append, nil_append,
      getLast?_append, getLast?_singleton, Option.some_or] at chain ⊢
    rw [if_neg chain.head_ne]
    exact chain.bypass

end Chain

/-- The pointers of a doubly linked list. -/
@[ext] structure Links (α : Type*) where
  next : α → Option α
  prev : α → Option α
  rear : Option α
  front : Option α

/-- The list from the rear to the front. -/
structure Linked (d : Links α) (cells : List α) : Prop where
  forward : Chain d.next d.rear cells
  backward : Chain d.prev d.front cells.reverse

theorem Linked.nodup {d : Links α} {cells : List α} (linked : Linked d cells) : cells.Nodup :=
  linked.forward.nodup

namespace Links

variable [DecidableEq α]

section

variable (d : Links α)

/-- `if (x->prev) x->prev->next = x->next`. -/
def bridgeNext (cell : α) : Links α :=
  match d.prev cell with
  | none => d
  | some before => { d with next := update d.next before (d.next cell) }

/-- `if (x->next) x->next->prev = x->prev`. -/
def bridgePrev (cell : α) : Links α :=
  match d.next cell with
  | none => d
  | some after => { d with prev := update d.prev after (d.prev cell) }

/-- `if (rear == x) rear = x->next`. -/
def leaveRear (cell : α) : Links α :=
  if d.rear = some cell then { d with rear := d.next cell } else d

/-- `if (front == x) front = x->prev`. -/
def leaveFront (cell : α) : Links α :=
  if d.front = some cell then { d with front := d.prev cell } else d

/-- Take a cell out of the list. -/
def remove (cell : α) : Links α :=
  (((d.bridgeNext cell).bridgePrev cell).leaveRear cell).leaveFront cell

/-- The list after its rear is taken off, where `rear` is not null. -/
def takeRear (rear : α) : Links α :=
  let prev := match d.next rear with
    | none => d.prev
    | some after => update d.prev after none
  { d with
    rear := d.next rear
    next := update d.next rear none
    prev := update prev rear none }

/-- The list with a new front cell, where `front` is not null. -/
def addFront (front cell : α) : Links α :=
  { d with
    next := update (update d.next cell none) front (some cell)
    prev := update d.prev cell (some front)
    front := some cell }

/-- `remove`, all at once, of a cell that does not point to itself. -/
theorem remove_eq {cell : α} (notPrev : d.prev cell ≠ some cell) (notNext : d.next cell ≠ some cell) :
    d.remove cell =
      { next := match d.prev cell with
          | none => d.next
          | some before => update d.next before (d.next cell)
        prev := match d.next cell with
          | none => d.prev
          | some after => update d.prev after (d.prev cell)
        rear := if d.rear = some cell then d.next cell else d.rear
        front := if d.front = some cell then d.prev cell else d.front } := by
  have other {pointer : Option α} {target : α} (ne : pointer ≠ some cell)
      (eq : pointer = some target) : cell ≠ target := fun same => ne (same ▸ eq)
  cases before : d.prev cell with
  | none =>
    cases after : d.next cell with
    | none =>
      simp only [remove, bridgeNext, bridgePrev, leaveRear, leaveFront, before, after]
      split_ifs <;> simp_all
    | some target =>
      have apart := other notNext after
      simp only [remove, bridgeNext, bridgePrev, leaveRear, leaveFront, before, after]
      split_ifs <;> simp_all
  | some source =>
    have apart := other notPrev before
    cases after : d.next cell with
    | none =>
      simp only [remove, bridgeNext, bridgePrev, leaveRear, leaveFront, before, after,
        update_of_ne apart]
      split_ifs <;> simp_all
    | some target =>
      have apart' := other notNext after
      simp only [remove, bridgeNext, bridgePrev, leaveRear, leaveFront, before, after,
        update_of_ne apart]
      split_ifs <;> simp_all

end

end Links

namespace Linked

variable {d : Links α} {cells before after : List α} {cell : α}

section

variable (linked : Linked d (before ++ cell :: after))
include linked

theorem backward_split : Chain d.prev d.front (after.reverse ++ cell :: before.reverse) := by
  have backward := linked.backward
  rwa [reverse_append, reverse_cons, append_assoc, singleton_append] at backward

theorem next_eq : d.next cell = after.head? :=
  linked.forward.next_eq

theorem prev_eq : d.prev cell = before.getLast? := by
  rw [linked.backward_split.next_eq, head?_reverse]

end

variable [DecidableEq α]

/-- **A cell is taken out wherever it is.** -/
theorem remove (linked : Linked d (before ++ cell :: after)) :
    Linked (d.remove cell) (before ++ after) := by
  have alone : cell ∉ before ++ after := (nodup_middle.mp linked.nodup |> nodup_cons.mp).1
  have notNext : d.next cell ≠ some cell := by
    rw [linked.next_eq]
    exact fun same => alone (mem_append_right _ (mem_of_mem_head? same))
  have notPrev : d.prev cell ≠ some cell := by
    rw [linked.prev_eq]
    exact fun same => alone (mem_append_left _ (mem_of_getLast? same))
  rw [Links.remove_eq d notPrev notNext]
  constructor
  · have forward := linked.forward.unlink
    rwa [← linked.prev_eq] at forward
  · have backward := linked.backward_split.unlink
    rw [getLast?_reverse, ← linked.next_eq] at backward
    rw [reverse_append]
    exact backward

/-- **The rear is taken off**, when it is not the only cell. -/
theorem takeRear (linked : Linked d (cell :: cells)) (stays : cells ≠ []) :
    Linked (d.takeRear cell) cells := by
  obtain ⟨second, rest, rfl⟩ := exists_cons_of_ne_nil stays
  have fresh : cell ∉ second :: rest := (nodup_cons.mp linked.nodup).1
  have next : d.next cell = some second := linked.forward.2.1
  constructor
  · show Chain (update d.next cell none) (d.next cell) (second :: rest)
    exact linked.forward.2.update_of_notMem fresh
  · have split : Linked d ([cell] ++ second :: rest) := linked
    have backward : Chain d.prev d.front (rest.reverse ++ second :: [cell]) := split.backward_split
    simp only [Links.takeRear, next, reverse_cons]
    refine backward.cut.update_of_notMem ?_
    rwa [← reverse_cons, mem_reverse]

/-- **A cell is added at the front**, when there is one already. -/
theorem addFront {front : α} (linked : Linked d (cells ++ [front])) (fresh : cell ∉ cells ++ [front]) :
    Linked (d.addFront front cell) (cells ++ [front] ++ [cell]) := by
  have apart : front ≠ cell := fun same =>
    fresh (same ▸ mem_append_right _ (mem_singleton.mpr rfl))
  have backward : Chain d.prev d.front (front :: cells.reverse) := backward_split linked
  constructor
  · simp only [Links.addFront]
    rw [update_comm apart.symm]
    exact linked.forward.snoc fresh
  · show Chain (update d.prev cell (some front)) (some cell) _
    rw [reverse_append, reverse_append]
    rw [backward.1] at backward
    refine backward.push fun member => fresh ?_
    rw [← mem_reverse, reverse_append]
    exact member

end Linked

end Lib
