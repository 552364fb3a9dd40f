/-
**Relations without cycles.**

A relation is a graph; `Acyclic r` says that no walk along its edges comes back to where it started.

* `Acyclic.mono`: taking edges away keeps a graph acyclic;
* **`Acyclic.add_edge`**: so does a new edge, provided its end does not lead back to its start;
* `reaches_cases`: the first step of a walk.
-/

import Mathlib.Logic.Relation

namespace Lib

open Relation

variable {α : Type*} {r r' : α → α → Prop} {a b : α}

/-- No walk along the edges comes back to where it started. -/
def Acyclic (r : α → α → Prop) : Prop := ∀ a, ¬ TransGen r a a

theorem Acyclic.mono (acyclic : Acyclic r) (fewer : ∀ x y, r' x y → r x y) : Acyclic r' :=
  fun x cycle => acyclic x (TransGen.mono fewer _ _ cycle)

/-- A walk in the graph with one more edge stays in the old graph or passes the new edge. -/
theorem walk_add_edge (away : ¬ ReflTransGen r b a) {x y : α}
    (walk : TransGen (fun x y => r x y ∨ x = a ∧ y = b) x y) :
    TransGen r x y ∨ ReflTransGen r x a ∧ ReflTransGen r b y := by
  induction walk with
  | single edge =>
    rcases edge with edge | ⟨rfl, rfl⟩
    · exact .inl (.single edge)
    · exact .inr ⟨.refl, .refl⟩
  | tail _ edge ih =>
    rcases edge with edge | ⟨rfl, rfl⟩
    · rcases ih with walk | ⟨before, after⟩
      · exact .inl (walk.tail edge)
      · exact .inr ⟨before, after.tail edge⟩
    · rcases ih with walk | ⟨before, after⟩
      · exact .inr ⟨walk.to_reflTransGen, .refl⟩
      · exact absurd after away

/-- **A new edge closes a cycle only if its end leads back to its start.** -/
theorem Acyclic.add_edge (acyclic : Acyclic r) (away : ¬ ReflTransGen r b a) :
    Acyclic fun x y => r x y ∨ x = a ∧ y = b := by
  intro x cycle
  rcases walk_add_edge away cycle with walk | ⟨before, after⟩
  · exact acyclic x walk
  · exact away (after.trans before)

/-- A walk goes nowhere, or along an edge to its end, or along an edge and on. -/
theorem reaches_cases (walk : ReflTransGen r a b) :
    a = b ∨ r a b ∨ ∃ c, r a c ∧ c ≠ b ∧ TransGen r c b := by
  rcases ReflTransGen.cases_head walk with rfl | ⟨c, edge, rest⟩
  · exact .inl rfl
  · rcases reflTransGen_iff_eq_or_transGen.mp rest with rfl | rest
    · exact .inr (.inl edge)
    · by_cases same : c = b
      · exact .inr (.inl (same ▸ edge))
      · exact .inr (.inr ⟨c, edge, same, rest⟩)

end Lib
