/-
**Programs over a state, with pre- and postconditions.**

A program that reads and changes a state `σ` and may not come back (it faults or loops) is a
`Prog σ α`, Lean's `StateT σ Option α`.

* `Triple pre x post`: from a state with `pre` the program, if it comes back, does so in a state with
  `post`;
* `Keeps view x`: the program changes nothing that the view shows.

The rules follow the `do` notation, one for every way to put programs together, so that a proof about
a program has the program's own shape.
-/

import Mathlib.Logic.Basic
import Mathlib.Tactic.SplitIfs

namespace Lib

/-- A program over the state `σ` that may not come back. -/
abbrev Prog (σ : Type) (α : Type) := StateT σ Option α

namespace Prog

variable {σ α β : Type}

/-- The program that does not come back. -/
def fault : Prog σ α := fun _ => none

/-- The value, if there is one. -/
def ofOption (value : Option α) : Prog σ α := fun s => value.map fun a => (a, s)

variable {x : Prog σ α} {f : α → Prog σ β} {s s' : σ} {a a' : α} {b : β}

theorem pure_eq_some : (pure a : Prog σ α) s = some (a', s') ↔ a = a' ∧ s = s' := by
  show some (a, s) = some (a', s') ↔ _
  rw [Option.some.injEq, Prod.mk.injEq]

/-- A program has one outcome. -/
theorem run_unique {result : Option (α × σ)} (ran : result = some (a, s))
    (again : result = some (a', s')) :
    a = a' ∧ s = s' := Prod.mk.inj (Option.some.inj (ran.symm.trans again))

/-- A sequence comes back if both of its parts do. -/
theorem bind_eq_some : (x >>= f) s = some (b, s') ↔
    ∃ a middle, x s = some (a, middle) ∧ f a middle = some (b, s') := by
  show Option.bind (x s) (fun p => f p.1 p.2) = _ ↔ _
  rw [Option.bind_eq_some_iff, Prod.exists]

/-- The first part has run. -/
theorem bind_run {middle : σ} (ran : x s = some (a, middle)) : (x >>= f) s = f a middle := by
  show Option.bind (x s) (fun p => f p.1 p.2) = _
  rw [ran]
  rfl

/-- The first part is lost, and so is the whole. -/
theorem bind_none (lost : x s = none) : (x >>= f) s = none := by
  show Option.bind (x s) (fun p => f p.1 p.2) = _
  rw [lost]
  rfl

theorem get_bind {f : σ → Prog σ β} : ((get : Prog σ σ) >>= f) s = f s s := rfl

theorem modify_bind {change : σ → σ} {f : PUnit → Prog σ β} :
    ((modify change : Prog σ PUnit) >>= f) s = f ⟨⟩ (change s) := rfl

theorem ofOption_eq_some {value : Option α} :
    (ofOption value : Prog σ α) s = some (a, s') ↔ value = some a ∧ s = s' := by
  simp only [ofOption, Option.map_eq_some_iff, Prod.mk.injEq]
  constructor
  · rintro ⟨a', found, rfl, rfl⟩
    exact ⟨found, rfl⟩
  · rintro ⟨found, rfl⟩
    exact ⟨a, found, rfl, rfl⟩

end Prog

/-! ### If the program comes back -/

section Triple

variable {σ α β : Type} {pre pre' : σ → Prop} {x y : Prog σ α} {f : α → Prog σ β}
  {post post' : α → σ → Prop} {goal : β → σ → Prop}

/-- Partial correctness. -/
def Triple (pre : σ → Prop) (x : Prog σ α) (post : α → σ → Prop) : Prop :=
  ∀ s a s', pre s → x s = some (a, s') → post a s'

namespace Triple

theorem pure {a : α} (holds : ∀ s, pre s → post a s) : Triple pre (Pure.pure a) post := by
  intro s a' s' start ran
  obtain ⟨rfl, rfl⟩ := Prog.pure_eq_some.mp ran
  exact holds s start

theorem bind (first : Triple pre x post) (second : ∀ a, Triple (post a) (f a) goal) :
    Triple pre (x >>= f) goal := by
  intro s b s' start ran
  obtain ⟨a, middle, ran, ran'⟩ := Prog.bind_eq_some.mp ran
  exact second a middle b s' (first s a middle start ran) ran'

theorem fault : Triple pre (Prog.fault : Prog σ α) post := by
  intro s a s' _ ran
  cases ran

theorem ite {c : Prop} [Decidable c] (yes : c → Triple pre x post) (no : ¬ c → Triple pre y post) :
    Triple pre (if c then x else y) post := by
  by_cases holds : c
  · rw [if_pos holds]
    exact yes holds
  · rw [if_neg holds]
    exact no holds

end Triple

end Triple

/-! ### What a program does not change -/

section Keeps

variable {σ α β τ : Type} {view : σ → τ} {x y : Prog σ α} {f : α → Prog σ β}

/-- A frame: the program changes nothing that the view shows. -/
def Keeps (view : σ → τ) (x : Prog σ α) : Prop := ∀ s a s', x s = some (a, s') → view s' = view s

namespace Keeps

theorem pure {a : α} : Keeps view (Pure.pure a : Prog σ α) := by
  intro s a' s' ran
  obtain ⟨rfl, rfl⟩ := Prog.pure_eq_some.mp ran
  rfl

theorem bind (first : Keeps view x) (second : ∀ a, Keeps view (f a)) : Keeps view (x >>= f) := by
  intro s b s' ran
  obtain ⟨a, middle, ran, ran'⟩ := Prog.bind_eq_some.mp ran
  exact (second a middle b s' ran').trans (first s a middle ran)

theorem fault : Keeps view (Prog.fault : Prog σ α) := by
  intro s a s' ran
  cases ran

theorem ofOption {value : Option α} : Keeps view (Prog.ofOption value : Prog σ α) := by
  intro s a s' ran
  obtain ⟨-, rfl⟩ := Prog.ofOption_eq_some.mp ran
  rfl

theorem get : Keeps view (MonadState.get : Prog σ σ) := by
  intro s a s' ran
  cases ran
  rfl

theorem modify {change : σ → σ} (same : ∀ s, view (change s) = view s) :
    Keeps view (modify change : Prog σ PUnit) := by
  intro s a s' ran
  cases ran
  exact same s

theorem ite {c : Prop} [Decidable c] (yes : Keeps view x) (no : Keeps view y) :
    Keeps view (if c then x else y) := by
  split_ifs
  · exact yes
  · exact no

/-- What a view keeps, a coarser view keeps. -/
theorem coarsen {ρ : Type} {coarse : σ → ρ} (kept : Keeps view x) (fn : τ → ρ)
    (same : ∀ s, coarse s = fn (view s)) : Keeps coarse x := by
  intro s a s' ran
  rw [same, same, kept s a s' ran]

end Keeps

end Keeps

end Lib
