/-
**Tables with distinct keys.**

A table has a key and a value at each of its places; a blank key marks a place that is not in use.
Looking up a key finds the first place that has it. Where no key but the blank one occurs twice, a
table is a finite map:

* `Distinct.find_eq_some`: a value is found if and only if some place has the key and the value;
* **`Distinct.find_insert`**: a new key in a blank place;
* **`Distinct.find_erase`**: a place made blank.
-/

import Mathlib.Data.List.Find

namespace Lib

variable {α β κ : Type*} [DecidableEq κ]

/-- The value at the first place with the key. -/
def tableFind (places : List α) (key : α → κ) (value : α → β) (k : κ) : Option β :=
  (places.find? fun p => key p = k).map value

/-- No key but the blank one is at two places. -/
def Distinct (blank : κ) (places : List α) (key : α → κ) : Prop :=
  ∀ p ∈ places, ∀ q ∈ places, key p = key q → key p ≠ blank → p = q

section Table

variable {blank k k₀ : κ} {places : List α} {key key' : α → κ} {value value' : α → β} {p₀ : α} {b : β}

theorem tableFind_eq_none : tableFind places key value k = none ↔ ∀ p ∈ places, key p ≠ k := by
  simp [tableFind]

theorem tableFind_congr (keys : ∀ p ∈ places, key' p = key p)
    (values : ∀ p ∈ places, value' p = value p) :
    tableFind places key' value' k = tableFind places key value k := by
  have first : places.find? (fun p => key' p = k) = places.find? fun p => key p = k :=
    List.find?_congr fun p member => by rw [keys p member]
  rw [tableFind, tableFind, first]
  cases found : places.find? fun p => key p = k with
  | none => rfl
  | some p => rw [Option.map_some, Option.map_some, values p (List.mem_of_find?_eq_some found)]

theorem Distinct.find_eq_some (distinct : Distinct blank places key) (proper : k ≠ blank) :
    tableFind places key value k = some b ↔ ∃ p ∈ places, key p = k ∧ value p = b := by
  constructor
  · intro found
    obtain ⟨p, first, same⟩ := Option.map_eq_some_iff.mp found
    exact ⟨p, List.mem_of_find?_eq_some first, by simpa using List.find?_some first, same⟩
  · rintro ⟨p, member, here, rfl⟩
    cases first : places.find? fun p => key p = k with
    | none => exact absurd here (by simpa using List.find?_eq_none.mp first p member)
    | some q =>
      have same : key q = k := by simpa using List.find?_some first
      have place : q = p := distinct q (List.mem_of_find?_eq_some first) p member
        (same.trans here.symm) (same ▸ proper)
      rw [tableFind, first, Option.map_some, place]

/-- The same keys and values at all places but one. -/
structure ChangedAt (places : List α) (p₀ : α) (key : α → κ) (value : α → β) (key' : α → κ)
    (value' : α → β) : Prop where
  member : p₀ ∈ places
  key : ∀ p ∈ places, p ≠ p₀ → key' p = key p
  value : ∀ p ∈ places, p ≠ p₀ → value' p = value p

variable (changed : ChangedAt places p₀ key value key' value') (distinct : Distinct blank places key)

include changed distinct

omit [DecidableEq κ] in
theorem Distinct.keeps (fresh : ∀ p ∈ places, p ≠ p₀ → key p ≠ key' p₀ ∨ key' p₀ = blank) :
    Distinct blank places key' := by
  have apart : ∀ p ∈ places, p ≠ p₀ → key' p = key' p₀ → key' p = blank := by
    intro p member other same
    rcases fresh p member other with differs | isBlank
    · exact absurd ((changed.key p member other).symm.trans same) differs
    · exact same.trans isBlank
  intro p here q there same used
  by_cases first : p = p₀
  · by_contra other
    have differs : q ≠ p₀ := fun second => other (first.trans second.symm)
    exact used (same.trans (apart q there differs (same.symm.trans (congrArg key' first))))
  · by_cases second : q = p₀
    · exact absurd (apart p here first (same.trans (congrArg key' second))) used
    · rw [changed.key p here first] at same used
      rw [changed.key q there second] at same
      exact distinct p here q there same used

theorem Distinct.find_other (proper : k ≠ blank) (before : key p₀ ≠ k) (after : key' p₀ ≠ k)
    (distinct' : Distinct blank places key') :
    tableFind places key' value' k = tableFind places key value k := by
  refine Option.ext fun b => ?_
  rw [distinct'.find_eq_some proper, distinct.find_eq_some proper]
  refine exists_congr fun p => and_congr_right fun member => ?_
  by_cases here : p = p₀
  · subst here
    exact ⟨fun found => absurd found.1 after, fun found => absurd found.1 before⟩
  · rw [changed.key p member here, changed.value p member here]

/-- **A new key in a blank place.** -/
theorem Distinct.find_insert (isBlank : key p₀ = blank)
    (fresh : tableFind places key value (key' p₀) = none)
    (proper : k ≠ blank) :
    Distinct blank places key' ∧ tableFind places key' value' k =
      if k = key' p₀ then some (value' p₀) else tableFind places key value k := by
  have distinct' : Distinct blank places key' := distinct.keeps changed fun p member _ =>
    .inl (tableFind_eq_none.mp fresh p member)
  refine ⟨distinct', ?_⟩
  by_cases here : k = key' p₀
  · rw [if_pos here, distinct'.find_eq_some proper]
    exact ⟨p₀, changed.member, here.symm, rfl⟩
  · rw [if_neg here]
    exact distinct.find_other changed proper (by rw [isBlank]; exact proper.symm)
      (Ne.symm here) distinct'

/-- **A place made blank.** -/
theorem Distinct.find_erase (isBlank : key' p₀ = blank) (proper : k ≠ blank) :
    Distinct blank places key' ∧ tableFind places key' value' k =
      if k = key p₀ then none else tableFind places key value k := by
  have distinct' : Distinct blank places key' := distinct.keeps changed fun _ _ _ => .inr isBlank
  refine ⟨distinct', ?_⟩
  by_cases here : k = key p₀
  · rw [if_pos here, tableFind_eq_none]
    intro p member same
    by_cases place : p = p₀
    · rw [place, isBlank] at same
      exact proper same.symm
    · rw [changed.key p member place] at same
      exact place (distinct p member p₀ changed.member (same.trans here) (same ▸ proper))
  · rw [if_neg here]
    exact distinct.find_other changed proper (Ne.symm here)
      (by rw [isBlank]; exact proper.symm) distinct'

end Table

end Lib
