/-
**Walking down a chain.**

The loop `while (curr && !stop(curr)) { prev = curr; curr = curr->next; }`, with the pointer to the
cell before the one it stops at. It is bounded, `none` being a walk that does not end within the
bound.

* `walk_spec`: on a chain the walk splits the list of its cells where it stops;
* `walk_returns`: it ends within as many steps as the chain has cells;
* `Chain.insert`, `Chain.unlink`: what a program then writes to put a cell in, or to take one out;
* `Threads.takeOut`: taking a cell out of one of several queues.
-/

import Winix.Lib.Links
import Winix.Lib.Queues

namespace Lib

open Function

variable {α : Type*}
variable {next : α → Option α}

/-- The pointers to the cell before and to the cell at which the walk stops. -/
def walk (stop : α → Bool) (next : α → Option α) :
    Nat → Option α → Option α → Option (Option α × Option α)
  | _, prev, none => some (prev, none)
  | 0, _, some _ => none
  | fuel + 1, prev, some curr =>
    if stop curr then some (prev, some curr) else walk stop next fuel (some curr) (next curr)

/-- **Where a walk stops.** -/
theorem walk_spec {stop : α → Bool} {prev' curr' : Option α} :
    ∀ {fuel : Nat} {prev curr : Option α} {cells : List α}, Chain next curr cells →
      walk stop next fuel prev curr = some (prev', curr') →
      ∃ before after, cells = before ++ after ∧ curr' = after.head? ∧
        prev' = before.getLast?.or prev ∧ (∀ cell ∈ before, stop cell = false) ∧
        ∀ cell ∈ curr', stop cell = true
  | fuel, prev, none, cells, chain, ran => by
      unfold walk at ran
      cases ran
      obtain rfl := chain.eq_nil_of_none
      exact ⟨[], [], rfl, rfl, rfl, nofun, nofun⟩
  | 0, prev, some curr, cells, chain, ran => by
      unfold walk at ran
      cases ran
  | fuel + 1, prev, some curr, cells, chain, ran => by
      obtain ⟨rest, rfl, tail⟩ := chain.eq_cons_of_some
      unfold walk at ran
      split_ifs at ran with stops
      · cases ran
        exact ⟨[], curr :: rest, rfl, rfl, rfl, nofun, fun cell found => by
          cases found
          exact stops⟩
      · obtain ⟨before, after, rfl, rest, last, passed, stopped⟩ := walk_spec tail ran
        refine ⟨curr :: before, after, rfl, rest, ?_, ?_, stopped⟩
        · rw [last]
          cases before with
          | nil => rfl
          | cons first before => simp [List.getLast?_cons]
        · rintro cell (_ | member)
          · exact Bool.eq_false_iff.mpr stops
          · exact passed cell ‹_›

theorem walk_returns {stop : α → Bool} :
    ∀ {fuel : Nat} {prev curr : Option α} {cells : List α}, Chain next curr cells →
      cells.length ≤ fuel → ∃ found, walk stop next fuel prev curr = some found
  | fuel, prev, none, cells, _, _ => ⟨(prev, none), by unfold walk; rfl⟩
  | 0, prev, some curr, cells, chain, short => by
      obtain ⟨rest, rfl, -⟩ := chain.eq_cons_of_some
      cases short
  | fuel + 1, prev, some curr, cells, chain, short => by
      obtain ⟨rest, rfl, tail⟩ := chain.eq_cons_of_some
      unfold walk
      split_ifs
      · exact ⟨_, rfl⟩
      · exact walk_returns tail (Nat.le_of_succ_le_succ short)

namespace Chain

variable [DecidableEq α] {next : α → Option α} {pointer : Option α} {before after : List α}

/-- **Insert**: a cell is made to point to a new one, and that to where the cell pointed. -/
theorem insert {cell new : α} (fresh : new ∉ before ++ cell :: after)
    (chain : Chain next pointer (before ++ cell :: after)) :
    Chain (update (update next cell (some new)) new after.head?) pointer
      (before ++ cell :: new :: after) := by
  induction before generalizing pointer with
  | nil =>
    obtain ⟨notCell, notAfter⟩ : new ≠ cell ∧ new ∉ after := by
      simpa [not_or] using fresh
    refine ⟨chain.1, ?_, ?_⟩
    · rw [update_of_ne notCell.symm, update_self]
    · rw [update_self, ← chain.2.head?_eq]
      exact (chain.2.update_of_notMem (List.nodup_cons.mp chain.nodup).1).update_of_notMem notAfter
  | cons first before ih =>
    have notCell : first ≠ cell := fun same => (List.nodup_cons.mp chain.nodup).1
      (same ▸ List.mem_append_right _ List.mem_cons_self)
    have notNew : first ≠ new := fun same => fresh (same ▸ List.mem_cons_self)
    refine ⟨chain.1, ?_⟩
    rw [update_of_ne notNew, update_of_ne notCell]
    exact ih (fun member => fresh (List.mem_cons_of_mem _ member)) chain.2

end Chain

namespace Threads

variable {ι : Type*} [DecidableEq ι] [DecidableEq α] {next : α → Option α} {head : ι → Option α}
  {cells : ι → List α} {i : ι} {before after : List α} {cell : α}

/-- **Taking a cell out** that follows another one in its queue. -/
theorem takeOut {prev : α} (threads : Threads next head cells)
    (shape : cells i = before ++ prev :: cell :: after) :
    Threads (update next prev (next cell)) head (update cells i (before ++ prev :: after)) := by
  have inQueue : prev ∈ cells i := by simp [shape]
  refine ⟨fun j => ?_, fun first second => threads.apart_update (fun member inOther => ?_) first second⟩
  · by_cases same : j = i
    · subst same
      have chain := threads.chain j
      rw [shape] at chain
      rw [update_self]
      exact chain.bypass
    · rw [update_of_ne same]
      exact (threads.chain j).update_of_notMem fun member => same (threads.apart member inQueue)
  · refine threads.apart inOther (shape ▸ ?_)
    simp only [List.mem_append, List.mem_cons] at member ⊢
    exact member.imp_right fun rest => rest.imp_right .inr

end Threads

end Lib
