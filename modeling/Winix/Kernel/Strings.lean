/-
**String copies.**

`lib/ansi/string.c`. A string is the list of its characters before the terminating zero. A function
that writes is modelled by its stores: the words it stores one after the other, and the place of the
first one, counted from `dest`; the source lies elsewhere. `strcpy` and `strcat` store a second zero
behind the one they copy, `strncpy` stores its zero behind `n` characters, and `strncmp` compares one
character after `n` equal ones.
-/

import Winix.Kernel.Exec

namespace Winix.Kernel

open Exec (procNameLen)
open List

/-- A string has no zero in it. -/
abbrev CString := { s : List Word // 0#32 ∉ s }

/-- Words that are stored one after the other. -/
structure Stores where
  first : Nat
  words : List Word

/-- A word is stored there. -/
def Stores.Writes (w : Stores) (i : Nat) : Prop := w.first ≤ i ∧ i < w.first + w.words.length

/-- The words from `dest` on, with the stores done. -/
def Stores.apply (w : Stores) (old : Nat → Word) (i : Nat) : Word :=
  if w.first ≤ i then w.words.getD (i - w.first) (old i) else old i

/-- `while (*dest++ = *src++);`. -/
def copyAll : List Word → List Word
  | [] => [0#32]
  | c :: src => c :: copyAll src

/-- `while (*src && n--) *dest++ = *src++;`. -/
def copySome : List Word → Nat → List Word
  | c :: src, n + 1 => c :: copySome src n
  | _, _ => []

/-- `strcpy`. -/
def strcpy (src : List Word) : Stores := ⟨0, copyAll src ++ [0#32]⟩

/-- `strcat` to the string `old`. -/
def strcat (old src : List Word) : Stores := ⟨old.length, copyAll src ++ [0#32]⟩

/-- `strncpy`. -/
def strncpy (src : List Word) (n : Nat) : Stores := ⟨0, copySome src n ++ [0#32]⟩

/-- `strncmp`. -/
def strncmp : List Word → List Word → Nat → Word
  | c :: s1, d :: s2, size + 1 => if c ≠ d then c - d else strncmp s1 s2 size
  | s1, s2, _ => s1.headD 0#32 - s2.headD 0#32

/-- The copy of `exec_welf`, on the words of `struct proc` from `name` on; `uid` is the first behind
the name. -/
def nameCopied (path : List Word) (proc : Nat → Word) : Nat → Word :=
  (strncpy path procNameLen).apply proc

/-- The result is the same for strings with the same first characters. -/
def ComparesWithin (s1 s2 : CString) (n : Nat) : Prop :=
  ∀ t1 t2 : CString, t1.1.take n = s1.1.take n → t2.1.take n = s2.1.take n →
    strncmp t1.1 t2.1 n = strncmp s1.1 s2.1 n

/-- No function touches more than its arguments name. -/
structure PromisesKept (src old s1 s2 path : CString) (n : Nat) (proc : Nat → Word) : Prop where
  strcpy : ∀ i, (strcpy src.1).Writes i ↔ i ≤ src.1.length
  strcat : ∀ i, (strcat old.1 src.1).Writes i ↔ old.1.length ≤ i ∧ i ≤ old.1.length + src.1.length
  strncpy : ∀ i, (strncpy src.1 n).Writes i → i < n
  strncmp : ComparesWithin s1 s2 n
  name : ∀ i ≥ procNameLen, nameCopied path.1 proc i = proc i

section Strings

variable {src path : List Word} {n : Nat}

theorem copyAll_eq : copyAll src = src ++ [0#32] := by
  induction src with
  | nil => rfl
  | cons c src ih => rw [copyAll, ih, cons_append]

theorem copySome_eq : copySome src n = src.take n := by
  induction src generalizing n with
  | nil => cases n <;> rfl
  | cons c src ih =>
    cases n with
    | zero => rfl
    | succ n => rw [copySome, ih, take_succ_cons]

/-- Store words one after the other. -/
def storeFrom (memory : Memory) (dest : Word) : List Word → Memory
  | [] => memory
  | c :: words => storeFrom (store memory dest c) (dest + 1) words

/-- **The `strncpy` of the terminal driver** does these stores. -/
theorem tty_strncpy_eq (memory : Memory) (dest : Word) (string : 0#32 ∉ src) :
    Driver.strncpy memory dest (fun i => src.getD i 0#32) n =
      storeFrom memory dest (strncpy src n).words := by
  rw [strncpy]
  induction src generalizing memory dest n with
  | nil => cases n <;> rfl
  | cons c src ih =>
    obtain ⟨first, rest⟩ := not_or.mp (mt mem_cons.mpr string)
    cases n with
    | zero => rfl
    | succ n =>
      have copied : Driver.strncpy memory dest (fun i => (c :: src).getD i 0#32) (n + 1) =
          Driver.strncpy (store memory dest c) (dest + 1) (fun i => src.getD i 0#32) n :=
        if_neg fun zero => first zero.symm
      rw [copied, ih _ _ rest]
      rfl

theorem strncpy_within_iff : (∀ i, (strncpy src n).Writes i → i < n) ↔ src.length < n := by
  simp only [Stores.Writes, strncpy, copySome_eq, length_append, length_take, length_singleton]
  constructor
  · intro within
    have last := within (min n src.length) (by omega)
    omega
  · intro short i written
    omega

theorem nameCopied_iff {proc : Nat → Word} : (∀ i ≥ procNameLen, nameCopied path proc i = proc i) ↔
    path.length < procNameLen ∨ proc procNameLen = 0#32 := by
  have copied (i : Nat) :
      nameCopied path proc i = (path.take procNameLen ++ [0#32]).getD i (proc i) := by
    simp [nameCopied, Stores.apply, strncpy, copySome_eq]
  have beyond (i : Nat) (high : path.length < i ∨ procNameLen < i) :
      nameCopied path proc i = proc i := by
    rw [copied, getD_eq_default]
    simp
    omega
  rcases Nat.lt_or_ge path.length procNameLen with short | long
  · exact iff_of_true (fun i behind => beyond i (by omega)) (Or.inl short)
  · have uid : nameCopied path proc procNameLen = 0#32 := by
      simp [copied, long]
    constructor
    · intro kept
      exact Or.inr ((kept _ le_rfl).symm.trans uid)
    · intro fits i behind
      rcases Nat.eq_or_lt_of_le behind with rfl | above
      · exact uid.trans (fits.resolve_left long.not_gt).symm
      · exact beyond i (Or.inr above)

theorem strncmp_append (l r1 r2 : List Word) :
    strncmp (l ++ r1) (l ++ r2) l.length = r1.headD 0#32 - r2.headD 0#32 := by
  induction l with
  | nil => cases r1 <;> cases r2 <;> rfl
  | cons c l ih => simpa [strncmp] using ih

/-- A difference or an end among the first characters decides. -/
theorem strncmp_take {s1 s2 : List Word} (ends : s1.take n ≠ s2.take n ∨ s1.length < n) :
    strncmp (s1.take n) (s2.take n) n = strncmp s1 s2 n := by
  induction n generalizing s1 s2 with
  | zero => simp at ends
  | succ n ih =>
    cases s1 with
    | nil => cases s2 <;> rfl
    | cons c s1 =>
      cases s2 with
      | nil => rfl
      | cons d s2 =>
        rw [take_succ_cons, take_succ_cons, strncmp, strncmp]
        split_ifs with differ
        · rfl
        · exact ih (by simpa [not_not.mp differ] using ends)

theorem comparesWithin_iff {s1 s2 : CString} :
    ComparesWithin s1 s2 n ↔ s1.1.take n ≠ s2.1.take n ∨ s1.1.length < n := by
  constructor
  · intro within
    by_contra equal
    simp only [not_or, not_not, not_lt] at equal
    have full : (s1.1.take n).length = n := by simpa using equal.2
    have clean : 0#32 ∉ s1.1.take n := fun member => s1.2 (mem_of_mem_take member)
    -- the same first characters, and perhaps one more on one side
    have result {more : List Word} (plain : 0#32 ∉ more) :
        more.headD 0#32 - 0#32 = strncmp s1.1 s2.1 n := by
      have same :=
        within ⟨s1.1.take n ++ more, by simp [clean, plain]⟩ ⟨s1.1.take n ++ [], by simpa using clean⟩
        (by simp [full]) (by simp [equal.1])
      have compared := strncmp_append (s1.1.take n) more []
      rw [full] at compared
      exact compared.symm.trans same
    have one := @result [1#32] (by decide)
    exact absurd (one.trans (result not_mem_nil).symm) (by decide)
  · intro ends t1 t2 same1 same2
    have shorter := congrArg length same1
    rw [length_take, length_take] at shorter
    rw [← strncmp_take ends, ← same1, ← same2, strncmp_take]
    rw [same1, same2]
    exact ends.imp_right fun short => by omega

/-- **The copies overrun**: `strcpy` and `strcat` always, the others where a string is too long. -/
theorem string_copies_overrun (src old s1 s2 path : CString) (n : Nat) (proc : Nat → Word) :
    ¬ PromisesKept src old s1 s2 path n proc ∧
    (∀ i, (strcpy src.1).Writes i ↔ i ≤ src.1.length + 1) ∧
    (∀ i, (strcat old.1 src.1).Writes i ↔ old.1.length ≤ i ∧ i ≤ old.1.length + src.1.length + 1) ∧
    ((∀ i, (strncpy src.1 n).Writes i → i < n) ↔ src.1.length < n) ∧
    (ComparesWithin s1 s2 n ↔ s1.1.take n ≠ s2.1.take n ∨ s1.1.length < n) ∧
    ((∀ i ≥ procNameLen, nameCopied path.1 proc i = proc i) ↔
      path.1.length < procNameLen ∨ proc procNameLen = 0#32) := by
  have both (first i : Nat) : Stores.Writes ⟨first, copyAll src.1 ++ [0#32]⟩ i ↔
      first ≤ i ∧ i ≤ first + src.1.length + 1 := by
    simp only [Stores.Writes, copyAll_eq, length_append, length_singleton]
    omega
  refine ⟨fun kept => ?_, fun i => (both 0 i).trans (by omega), both _, strncpy_within_iff,
    comparesWithin_iff, nameCopied_iff⟩
  have more := (kept.strcpy (src.1.length + 1)).mp ((both 0 _).mpr (by omega))
  omega

end Strings

/-- A path of sixteen characters clears the `uid`. -/
theorem long_name_clears_uid : nameCopied (replicate 16 97#32) (fun _ => 5#32) procNameLen = 0#32 ∧
    ¬ PromisesKept ⟨[], by decide⟩ ⟨[], by decide⟩ ⟨[], by decide⟩ ⟨[], by decide⟩
      ⟨replicate 16 97#32, by decide⟩ 1 (fun _ => 5#32) := by
  refine ⟨by decide, fun kept => ?_⟩
  have uid := kept.name procNameLen le_rfl
  revert uid
  decide

end Winix.Kernel
