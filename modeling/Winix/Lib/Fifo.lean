/-
**Queues of words, as their users see them.**

A user of a queue sees words go in and words come out. `Moves contents log contents'` says that a
queue with `contents` can make the transfers of `log` and then hold `contents'`: words are accepted
at the end and delivered from the front, and nothing else ever happens to them.

* **`Moves.conserved`**: nothing is lost, made up or reordered.
-/

import Mathlib.Data.List.Basic

namespace Lib

variable {α : Type*}

/-- Words that enter or leave a queue. -/
inductive Transfer (α : Type*)
  | accepted (words : List α)
  | delivered (words : List α)

/-- All words that entered, in order. -/
def accepted : List (Transfer α) → List α
  | [] => []
  | .accepted words :: log => words ++ accepted log
  | .delivered _ :: log => accepted log

/-- All words that left, in order. -/
def delivered : List (Transfer α) → List α
  | [] => []
  | .accepted _ :: log => delivered log
  | .delivered words :: log => words ++ delivered log

/-- The queue makes these transfers. -/
inductive Moves : List α → List (Transfer α) → List α → Prop
  | nil (contents : List α) : Moves contents [] contents
  | accept {contents contents' : List α} {log : List (Transfer α)} (words : List α)
      (rest : Moves (contents ++ words) log contents') :
      Moves contents (.accepted words :: log) contents'
  | deliver {contents contents' : List α} {log : List (Transfer α)} (words : List α)
      (rest : Moves contents log contents') :
      Moves (words ++ contents) (.delivered words :: log) contents'

theorem Moves.append {contents middle contents' : List α} {first second : List (Transfer α)}
    (moves : Moves contents first middle) (rest : Moves middle second contents') :
    Moves contents (first ++ second) contents' := by
  induction moves with
  | nil => exact rest
  | accept words _ ih => exact .accept words (ih rest)
  | deliver words _ ih => exact .deliver words (ih rest)

/-- **Nothing is lost, made up or reordered.** -/
theorem Moves.conserved {contents contents' : List α} {log : List (Transfer α)}
    (moves : Moves contents log contents') :
    contents ++ accepted log = delivered log ++ contents' := by
  induction moves with
  | nil contents => simp [accepted, delivered]
  | accept words _ ih => rw [accepted, delivered, ← List.append_assoc, ih]
  | deliver words _ ih => rw [accepted, delivered, List.append_assoc, ih, List.append_assoc]

end Lib
