/-
**Singly linked chains.**

A heap of cells, each with one `next` pointer, is a function `next : α → Option α`; `none` is the
null pointer. `Chain next p l` says that following `next` from the pointer `p` visits exactly the
cells of `l`, in order, and then reaches null.

* a chain is determined by its first pointer (`Chain.unique`) and visits no cell twice
  (`Chain.nodup`): a null-terminated chain cannot be cyclic;
* a chain only depends on the `next` fields of its own cells (`Chain.congr`), so a write to a cell
  outside it does not matter (`Chain.update_of_notMem`);
* `Chain.push`, `Chain.pop`, `Chain.snoc` are the three ways a queue changes.
-/

import Mathlib.Logic.Function.Basic
import Mathlib.Data.List.Nodup

namespace Lib

open Function List

variable {α : Type*}

/-- Following `next` from the pointer visits exactly the cells of the list, then null. -/
def Chain (next : α → Option α) : Option α → List α → Prop
  | pointer, [] => pointer = none
  | pointer, cell :: cells => pointer = some cell ∧ Chain next (next cell) cells

namespace Chain

variable {next next' : α → Option α} {pointer : Option α} {cells : List α}

@[simp] theorem nil_iff : Chain next pointer [] ↔ pointer = none := Iff.rfl

theorem eq_nil_of_none (chain : Chain next none cells) : cells = [] := by
  cases cells with
  | nil => rfl
  | cons cell cells => cases chain.1

theorem eq_cons_of_some {cell : α} (chain : Chain next (some cell) cells) :
    ∃ rest, cells = cell :: rest ∧ Chain next (next cell) rest := by
  cases cells with
  | nil => cases chain
  | cons first rest =>
    obtain ⟨same, chain⟩ := chain
    cases same
    exact ⟨rest, rfl, chain⟩

/-- **A pointer heads at most one chain.** -/
theorem unique : ∀ {pointer : Option α} {cells cells' : List α},
    Chain next pointer cells → Chain next pointer cells' → cells = cells'
  | _, [], cells', first, second => by
      rw [nil_iff] at first
      subst first
      exact (eq_nil_of_none second).symm
  | _, cell :: cells, cells', first, second => by
      obtain ⟨rfl, firstRest⟩ := first
      obtain ⟨rest, rfl, secondRest⟩ := eq_cons_of_some second
      rw [unique firstRest secondRest]

/-- Cutting a chain: every suffix is the chain of its own first pointer. -/
theorem drop {before after : List α} {cell : α}
    (chain : Chain next pointer (before ++ cell :: after)) :
    Chain next (some cell) (cell :: after) := by
  induction before generalizing pointer with
  | nil => exact ⟨rfl, chain.2⟩
  | cons first before ih => exact ih chain.2

/-- **A null-terminated chain visits no cell twice.** -/
theorem nodup (chain : Chain next pointer cells) : cells.Nodup := by
  induction cells generalizing pointer with
  | nil => exact nodup_nil
  | cons cell cells ih =>
    refine nodup_cons.mpr ⟨fun member => ?_, ih chain.2⟩
    -- a second visit would make the chain from this cell a proper suffix of itself
    obtain ⟨before, after, rfl⟩ := append_of_mem member
    have again : Chain next (some cell) (cell :: after) := drop chain.2
    have here : Chain next (some cell) (cell :: (before ++ cell :: after)) := ⟨rfl, chain.2⟩
    have same := congrArg List.length (unique again here)
    simp only [length_cons, length_append] at same
    omega

/-- The cells of a list without one of them. -/
theorem mem_split {before after : List α} {cell : α} (nodup : (before ++ cell :: after).Nodup)
    (other : α) :
    other ∈ before ++ after ↔ other ∈ before ++ cell :: after ∧ other ≠ cell := by
  have outside := (nodup_cons.mp (nodup_middle.mp nodup)).1
  simp only [mem_append, mem_cons] at outside ⊢
  constructor
  · intro member
    exact ⟨member.imp_right .inr, fun same => outside (same ▸ member)⟩
  · rintro ⟨member | same | member, ne⟩
    · exact .inl member
    · exact absurd same ne
    · exact .inr member

/-- A chain depends on the `next` fields of its own cells only. -/
theorem congr (same : ∀ cell ∈ cells, next' cell = next cell) (chain : Chain next pointer cells) :
    Chain next' pointer cells := by
  induction cells generalizing pointer with
  | nil => exact chain
  | cons cell cells ih =>
    refine ⟨chain.1, ?_⟩
    rw [same cell mem_cons_self]
    exact ih (fun other member => same other (mem_cons_of_mem _ member)) chain.2

section Update

variable [DecidableEq α] {cell : α}

theorem update_of_notMem {target : Option α} (outside : cell ∉ cells)
    (chain : Chain next pointer cells) :
    Chain (update next cell target) pointer cells :=
  chain.congr fun other member =>
    update_of_ne (fun same : other = cell => outside (same ▸ member)) _ _

/-- **Push**: a new first cell that points to the old first cell. -/
theorem push (outside : cell ∉ cells) (chain : Chain next pointer cells) :
    Chain (update next cell pointer) (some cell) (cell :: cells) := by
  refine ⟨rfl, ?_⟩
  rw [update_self]
  exact chain.update_of_notMem outside

/-- **Pop**: the rest of the chain starts at the first cell's `next`, whatever is then written to
the cell that was removed. -/
theorem pop {target : Option α} (chain : Chain next (some cell) (cell :: cells)) :
    Chain (update next cell target) (next cell) cells :=
  chain.2.update_of_notMem (nodup_cons.mp chain.nodup).1

/-- **Snoc**: the last cell is made to point to a new last cell. -/
theorem snoc {last : α} (outside : cell ∉ cells ++ [last])
    (chain : Chain next pointer (cells ++ [last])) :
    Chain (update (update next last (some cell)) cell none) pointer (cells ++ [last] ++ [cell]) := by
  induction cells generalizing pointer with
  | nil =>
    simp only [nil_append, mem_singleton] at outside
    refine ⟨chain.1, ?_, ?_⟩
    · rw [update_of_ne (Ne.symm outside), update_self]
    · rw [update_self]
      exact rfl
  | cons first cells ih =>
    have lastOutside : first ∉ cells ++ [last] := (nodup_cons.mp chain.nodup).1
    have notLast : first ≠ last := fun same =>
      lastOutside (same ▸ mem_append_right _ (mem_singleton.mpr rfl))
    have notCell : first ≠ cell := fun same =>
      outside (same ▸ mem_cons_self)
    refine ⟨chain.1, ?_⟩
    rw [update_of_ne notCell, update_of_ne notLast]
    exact ih (fun member => outside (mem_cons_of_mem _ member)) chain.2

end Update

/-! ### The chain of a list -/

section Successor

variable [DecidableEq α]

/-- The element that follows in the list. -/
def successor : List α → α → Option α
  | first :: second :: rest, cell =>
    if cell = first then some second else successor (second :: rest) cell
  | _, _ => none

/-- **A list without repetitions is the chain of its successor function.** -/
theorem of_nodup : ∀ {list : List α}, list.Nodup → Chain (successor list) list.head? list
  | [], _ => rfl
  | [cell], _ => ⟨rfl, rfl⟩
  | first :: second :: rest, nodup => by
      obtain ⟨notRest, nodup⟩ := nodup_cons.mp nodup
      refine ⟨rfl, ?_⟩
      have here : successor (first :: second :: rest) first = some second := by simp [successor]
      rw [here]
      refine (of_nodup nodup).congr fun cell member => ?_
      have other : cell ≠ first := fun same => notRest (same ▸ member)
      simp [successor, other]

theorem successor_mem : ∀ {list : List α} {cell next : α}, successor list cell = some next → next ∈ list
  | first :: second :: rest, cell, next, found => by
      unfold successor at found
      split_ifs at found
      · cases found
        exact mem_cons_of_mem _ mem_cons_self
      · exact mem_cons_of_mem _ (successor_mem found)

end Successor

end Chain

end Lib
