/-
**Names and components.**

What the string functions of the file system compute: `get_name` splits off the first component of a
path, `char32_strcmp` compares a name in a directory with a component, and the entry that overhangs
the end of a block has the name of no component.
-/

import Winix.Fs.Path
import Mathlib.Data.List.TakeWhile

namespace Winix.Fs

open Kernel Lib Function List

/-! ### The components of a path -/

/-- The nonempty parts between slashes. -/
def components (path : List Word) : List (List Word) := (path.splitOn slash).filter (· ≠ [])

section Components

variable {path name rest : List Word}

theorem components_slash : components (slash :: path) = components path := by
  simp [components, List.splitOn, splitOnP_cons_eq_if_modifyHead]

theorem components_dropWhile : components (path.dropWhile (· = slash)) = components path := by
  induction path with
  | nil => rfl
  | cons c path ih =>
    by_cases same : c = slash
    · rw [dropWhile_cons_of_pos (by simpa using same), ih, same, components_slash]
    · rw [dropWhile_cons_of_neg (by simpa using same)]

theorem components_name (nonempty : name ≠ []) (plain : ∀ c ∈ name, c ≠ slash) :
    components name = [name] := by
  have single : name.splitOn slash = [name] :=
    splitOnP_eq_singleton fun c member => by simpa using plain c member
  simp [components, single, nonempty]

/-- **A slash cuts a path in two.** -/
theorem components_append (before after : List Word) :
    components (before ++ slash :: after) = components before ++ components after := by
  rw [components, List.splitOn, splitOnP_append_cons before after (by simp), filter_append]
  rfl

/-- The first component, and what is left behind the slashes that follow it. -/
def splitFirst (path : List Word) : List Word × List Word :=
  let rnp := path.dropWhile (· = slash)
  (rnp.takeWhile (· ≠ slash), (rnp.dropWhile (· ≠ slash)).dropWhile (· = slash))

theorem splitFirst_plain : ∀ c ∈ (splitFirst path).1, c ≠ slash := fun c member => by
  simpa using mem_takeWhile_imp member

/-- What a `dropWhile` leaves starts with a character that is kept. -/
theorem head_dropWhile {p : Word → Bool} {c : Word} (found : path.dropWhile p = c :: rest) :
    p c = false := by
  have head := head?_dropWhile_not p path
  rw [found] at head
  exact head

/-- **The components, one by one.** -/
theorem components_eq : components path =
    if (splitFirst path).1 = [] then [] else (splitFirst path).1 :: components (splitFirst path).2 := by
  have plain : ∀ c ∈ (splitFirst path).1, c ≠ slash := splitFirst_plain
  have skip : components (path.dropWhile (· = slash)) = components path := components_dropWhile
  unfold splitFirst at *
  dsimp only at *
  rw [← skip]
  cases start : path.dropWhile (fun c => decide (c = slash)) with
  | nil => rfl
  | cons c rnp =>
    have other : c ≠ slash := by simpa using head_dropWhile start
    rw [start] at plain
    have nonempty : (c :: rnp).takeWhile (fun c => decide (c ≠ slash)) ≠ [] := by
      simp [other]
    rw [if_neg nonempty]
    cases tail : (c :: rnp).dropWhile (fun c => decide (c ≠ slash)) with
    | nil =>
      have whole := takeWhile_append_dropWhile (p := fun c => decide (c ≠ slash))
        (l := c :: rnp)
      rw [tail, append_nil] at whole
      have only := components_name nonempty plain
      rw [whole] at only ⊢
      rw [only]
      rfl
    | cons d after =>
      obtain rfl : d = slash := by simpa using head_dropWhile tail
      have whole := takeWhile_append_dropWhile (p := fun c => decide (c ≠ slash))
        (l := c :: rnp)
      rw [tail] at whole
      have first := components_append (takeWhile (fun c => decide (c ≠ slash)) (c :: rnp)) after
      rw [whole, components_name nonempty plain] at first
      rw [first, components_dropWhile, components_slash, singleton_append]

theorem components_rest : components (splitFirst path).2 = [] ↔ (splitFirst path).2 = [] := by
  constructor
  · intro none
    unfold splitFirst at *
    dsimp only at *
    cases left : ((path.dropWhile fun c => decide (c = slash)).dropWhile
        fun c => decide (c ≠ slash)).dropWhile fun c => decide (c = slash) with
    | nil => rfl
    | cons c after =>
      have other : c ≠ slash := by simpa using head_dropWhile left
      rw [left, components_eq] at none
      simp [splitFirst, other] at none
  · intro none
    rw [none]
    rfl

theorem splitFirst_progress (left : (splitFirst path).2 ≠ []) :
    (splitFirst path).1 ≠ [] ∧ (splitFirst path).2.length < path.length := by
  unfold splitFirst at *
  dsimp only at *
  have skip := (dropWhile_suffix fun c => decide (c = slash) : path.dropWhile _ <:+ path).length_le
  cases start : path.dropWhile (fun c => decide (c = slash)) with
  | nil =>
    rw [start] at left
    exact absurd rfl left
  | cons c rnp =>
    have other : c ≠ slash := by simpa using head_dropWhile start
    rw [start, length_cons] at skip
    refine ⟨by simp [other], ?_⟩
    rw [dropWhile_cons_of_pos (by simpa using other)]
    have first := (dropWhile_suffix fun c => decide (c ≠ slash) :
      rnp.dropWhile _ <:+ rnp).length_le
    have second := (dropWhile_suffix fun c => decide (c = slash) :
      (rnp.dropWhile fun c => decide (c ≠ slash)).dropWhile _ <:+ _).length_le
    omega

theorem length_takeWhile_add (p : Word → Bool) (l : List Word) :
    (l.takeWhile p).length + (l.dropWhile p).length = l.length := by
  rw [← length_append, takeWhile_append_dropWhile]

theorem drop_length_takeWhile (p : Word → Bool) (l : List Word) :
    l.drop (l.takeWhile p).length = l.dropWhile p := by
  induction l with
  | nil => rfl
  | cons c l ih =>
    by_cases holds : p c = true
    · simp [holds, ih]
    · simp [holds]

/-- **`get_name` splits off the first component** of a path that is not too long. -/
theorem getName_eq (short : path.length < pathMax) :
    getName path = (some (splitFirst path).2, (splitFirst path).1.take nameMax) := by
  have skip := length_takeWhile_add (fun c => decide (c = slash)) path
  unfold getName splitFirst
  dsimp only
  generalize path.dropWhile (fun c => decide (c = slash)) = rnp at *
  have first := length_takeWhile_add (fun c => decide (c ≠ slash)) rnp
  rw [take_of_length_le (by omega), drop_length_takeWhile]
  generalize rnp.dropWhile (fun c => decide (c ≠ slash)) = tail at *
  have trailing := length_takeWhile_add (fun c => decide (c = slash)) tail
  rw [take_of_length_le (by omega), drop_length_takeWhile, if_neg (by omega)]

theorem getName_short (short : path.length < pathMax)
    (names : ∀ name ∈ components path, name.length < nameMax) :
    getName path = (some (splitFirst path).2, (splitFirst path).1) := by
  rw [getName_eq short]
  by_cases empty : (splitFirst path).1 = []
  · rw [empty, take_nil]
  · have member : (splitFirst path).1 ∈ components path := by
      rw [components_eq, if_neg empty]
      exact mem_cons_self
    rw [take_of_length_le (names _ member).le]

/-- The names that the loop of `__eath_path` takes off a path, up to the last. -/
def pathNames : Nat → List Word → Option (List (List Word))
  | 0, _ => none
  | fuel + 1, path =>
    match getName path with
    | (none, _) => none
    | (some [], string) => some [string]
    | (some componentName, string) => (pathNames fuel componentName).map (string :: ·)

/-- `string` with a component of this length in it: the zero is written if there is room. -/
def named (string : Nat → Word) (name : List Word) (i : Nat) : Word :=
  if i = name.length ∧ i < nameMax then 0#32 else name.getD i (string i)

/-- One slash more: in front, behind a slash, or at the end. -/
inductive SlashMore : List Word → List Word → Prop
  | front (path : List Word) : SlashMore path (slash :: path)
  | again (before after : List Word) :
    SlashMore (before ++ slash :: after) (before ++ slash :: slash :: after)
  | back (path : List Word) : SlashMore path (path ++ [slash])

theorem components_same {other : List Word} (same : Relation.EqvGen SlashMore path other) :
    components path = components other := by
  induction same with
  | rel path other more =>
    cases more with
    | front => rw [components_slash]
    | again before after => rw [components_append, components_append, components_slash]
    | back =>
      rw [components_append]
      exact (append_nil _).symm
  | refl => rfl
  | symm path other same ih => exact ih.symm
  | trans path other last same same' ih ih' => exact ih.trans ih'

theorem pathNames_eq {fuel : Nat} (short : path.length < pathMax)
    (names : ∀ name ∈ components path, name.length < nameMax) (enough : path.length < fuel) :
    pathNames fuel path = some (if components path = [] then [[]] else components path) := by
  induction fuel generalizing path with
  | zero => omega
  | succ fuel ih =>
    rw [pathNames, getName_short short names]
    cases left : (splitFirst path).2 with
    | nil =>
      rw [components_eq, left]
      by_cases empty : (splitFirst path).1 = []
      · rw [if_pos empty, if_pos rfl, empty]
      · rw [if_neg empty, if_neg (cons_ne_nil _ _)]
        rfl
    | cons c rest =>
      obtain ⟨nonempty, shorter⟩ := splitFirst_progress (left ▸ cons_ne_nil c rest)
      have more := mt components_rest.mp (left ▸ cons_ne_nil c rest)
      rw [components_eq, if_neg nonempty, left] at names
      rw [left] at shorter more
      rw [components_eq, if_neg nonempty, left, if_neg (cons_ne_nil _ _)]
      refine (congrArg (Option.map _) (ih (shorter.trans short)
        (fun name member => names name (mem_cons_of_mem _ member)) (by omega))).trans ?_
      rw [if_neg more, Option.map_some]

/-- **A path is cut at its slashes**, into terminated names; a path without a component gives one
empty name, which `advance` tests for. How many slashes there are in one place makes no difference. -/
theorem path_cut_at_slashes (path : List Word) (short : path.length < pathMax)
    (names : ∀ name ∈ components path, name.length < nameMax) :
    (∀ fuel > path.length, ∃ cut, pathNames fuel path = some cut ∧
      cut = (if components path = [] then [[]] else components path) ∧
      ∀ name ∈ cut, ∀ string, ∀ i ≤ name.length, named string name i = name.getD i 0#32) ∧
    ∀ other : List Word, other.length < pathMax → Relation.EqvGen SlashMore path other →
      ∀ fuel > max path.length other.length, pathNames fuel other = pathNames fuel path := by
  refine ⟨fun fuel enough => ⟨_, pathNames_eq short names enough, rfl, ?_⟩, ?_⟩
  · intro name member string i inside
    have small : name.length < nameMax := by
      split_ifs at member
      · rw [mem_singleton.mp member]
        decide
      · exact names name member
    unfold named
    split_ifs with last
    · simp [last.1]
    · have before : i < name.length := by omega
      simp [before]
  · intro other short' same fuel enough
    have same := components_same same
    rw [pathNames_eq short names (by omega), pathNames_eq short' (same ▸ names) (by omega), same]

/-- `/a//b`. -/
theorem two_names_cut : pathNames 6 [slash, 97#32, slash, slash, 98#32] = some [[97#32], [98#32]] := by
  obtain ⟨cut, taken, same, -⟩ := (path_cut_at_slashes [slash, 97#32, slash, slash, 98#32] (by decide)
    (by decide)).1 6 (by decide)
  rw [taken, same]
  decide

/-- `/` has no component, and one name is taken off it. -/
theorem slash_cut : pathNames 2 [slash] = some [[]] ∧ components [slash] = [] := by
  decide

end Components

/-! ### Names in a directory -/

/-- The name that is stored at these words, up to the terminating zero. -/
def nameWithin (n : Nat) (words : Nat → Word) : List Word :=
  ((List.range n).map words).takeWhile (· ≠ 0#32)

theorem nameWithin_succ (n : Nat) (words : Nat → Word) :
    nameWithin (n + 1) words =
      if words 0 = 0#32 then [] else words 0 :: nameWithin n fun k => words (k + 1) := by
  simp only [nameWithin, range_succ_eq_map, map_cons, map_map]
  by_cases ended : words 0 = 0#32
  · simp [ended]
  · simp only [ended, if_false, takeWhile_cons_of_pos (p := fun c => decide (c ≠ 0#32))
      (a := words 0) (by simpa using ended)]
    rfl

/-- **`char32_strcmp` compares names.** -/
theorem char32Strcmp_eq_zero {string : List Word} (proper : ∀ c ∈ string, c ≠ 0#32) {n : Nat}
    (short : string.length < n) {words : Nat → Word} :
    char32Strcmp words string = 0#32 ↔ nameWithin n words = string := by
  induction string generalizing n words with
  | nil =>
    obtain ⟨n, rfl⟩ := Nat.exists_eq_succ_of_ne_zero (Nat.ne_zero_of_lt short)
    rw [char32Strcmp, nameWithin_succ]
    split_ifs with ended <;> simp [ended]
  | cons c string ih =>
    obtain ⟨n, rfl⟩ := Nat.exists_eq_succ_of_ne_zero (Nat.ne_zero_of_lt short)
    have nonzero : c ≠ 0#32 := proper c mem_cons_self
    have shorter : string.length < n := Nat.lt_of_succ_lt_succ short
    have rest : char32Strcmp (fun k => words (k + 1)) string = 0#32 ↔
        (nameWithin n fun k => words (k + 1)) = string :=
      ih (fun d member => proper d (mem_cons_of_mem _ member)) shorter
    rw [char32Strcmp, nameWithin_succ]
    by_cases ended : words 0 = 0#32
    · simp [ended, nonzero]
    · by_cases same : words 0 = c
      · simp [same, nonzero, rest]
      · have apart : words 0 - c ≠ 0#32 := fun zero => same (by bv_omega)
        simp [ended, same, apart]

theorem nameWithin_eq {string : List Word} (proper : ∀ c ∈ string, c ≠ 0#32) {n : Nat}
    (short : string.length < n) {words : Nat → Word}
    (stored : ∀ k (inside : k < string.length), words k = string[k])
    (ended : words string.length = 0#32) : nameWithin n words = string := by
  induction string generalizing n words with
  | nil =>
    obtain ⟨n, rfl⟩ := Nat.exists_eq_succ_of_ne_zero (Nat.ne_zero_of_lt short)
    rw [nameWithin_succ]
    exact if_pos ended
  | cons c string ih =>
    obtain ⟨n, rfl⟩ := Nat.exists_eq_succ_of_ne_zero (Nat.ne_zero_of_lt short)
    have first : words 0 = c := stored 0 (Nat.zero_lt_succ _)
    rw [nameWithin_succ, if_neg (first ▸ proper c mem_cons_self), first,
      ih (fun d member => proper d (mem_cons_of_mem _ member)) (Nat.lt_of_succ_lt_succ short)
        (fun k inside => stored (k + 1) (Nat.succ_lt_succ inside)) ended]

theorem nameWithin_congr {n m : Nat} {words other : Nat → Word} (within : m ≤ n)
    (same : ∀ k < m, other k = words k) (short : (nameWithin n words).length < m) :
    nameWithin n other = nameWithin n words := by
  induction m generalizing n words other with
  | zero => exact absurd short (Nat.not_lt_zero _)
  | succ m ih =>
    obtain ⟨n, rfl⟩ := Nat.exists_eq_succ_of_ne_zero (Nat.ne_zero_of_lt within)
    rw [nameWithin_succ] at short
    rw [nameWithin_succ, nameWithin_succ, same 0 (Nat.zero_lt_succ m)]
    by_cases ended : words 0 = 0#32
    · rw [if_pos ended, if_pos ended]
    · rw [if_neg ended] at short
      rw [if_neg ended, if_neg ended, ih (Nat.le_of_succ_le_succ within)
        (fun k inside => same (k + 1) (Nat.succ_lt_succ inside)) (Nat.lt_of_succ_lt_succ short)]

/-- **What `char32_strncpy` writes.** -/
theorem char32Strncpy_apply {src : List Word} {n : Nat} (short : src.length ≤ n) (words : Nat → Word)
    (dest k : Nat) :
    char32Strncpy words dest src n k =
      if k < dest then words k
      else if k - dest < src.length then src.getD (k - dest) 0#32
      else if k - dest = src.length then 0#32
      else words k := by
  induction src generalizing n words dest with
  | nil =>
    have ends : char32Strncpy words dest [] n = update words dest 0#32 := by
      cases n <;> rfl
    rw [ends]
    by_cases here : k = dest
    · subst here
      simp
    · rw [update_of_ne here]
      by_cases before : k < dest
      · rw [if_pos before]
      · rw [if_neg before, length_nil, if_neg (Nat.not_lt_zero _), if_neg (by omega)]
  | cons c src ih =>
    obtain ⟨n, rfl⟩ := Nat.exists_eq_succ_of_ne_zero (Nat.ne_zero_of_lt short)
    rw [char32Strncpy, ih (Nat.le_of_succ_le_succ short)]
    by_cases before : k < dest
    · rw [if_pos (by omega), if_pos before, update_of_ne (by omega)]
    · rw [if_neg before]
      by_cases here : k = dest
      · subst here
        simp
      · have next : k - dest = (k - (dest + 1)) + 1 := by omega
        rw [if_neg (by omega), next, update_of_ne here]
        simp only [length_cons, Nat.add_lt_add_iff_right, Nat.add_right_cancel_iff, getD_cons_succ]

end Winix.Fs
