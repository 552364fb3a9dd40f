/-
**Words in the memory of a process.**

What a system call with a pointer does to the memory, and how its programs run when their logs are left
out.

* `wordsAt`, `putList`: the words that lie in a row, and the memory after words have been written in
  a row (`putList_append`: one run of words after the other; `wordsAt_putList`: they can be read back);
* `onDisks_run` and its companions: one step of a program.
-/

import Mathlib.Data.List.GetD
import Winix.Fs.Userio
import Winix.Fs.Blocks

namespace Winix.Fs

open Kernel Lib List BitVec

/-! ### Words in a row -/

/-- The words that lie in a row. -/
def wordsAt (memory : Memory) (start : Word) (n : Nat) : List Word :=
  (List.range n).map fun i => memory (start + BitVec.ofNat 32 i)

/-- The memory after these words have been written in a row. -/
def putList (memory : Memory) (start : Word) (words : List Word) : Memory :=
  putWords memory start words.length fun i => words.getD i 0#32

section Words

variable {memory : Memory} {start : Word} {words more : List Word}

@[simp] theorem length_wordsAt (n : Nat) : (wordsAt memory start n).length = n := by
  simp [wordsAt]

theorem wordsAt_add (m n : Nat) : wordsAt memory start (m + n) =
    wordsAt memory start m ++ wordsAt memory (start + BitVec.ofNat 32 m) n := by
  simp only [wordsAt, range_add, map_append, map_map, Function.comp_def, ofNat_add,
    add_assoc]

theorem getD_wordsAt {i n : Nat} (inside : i < n) :
    (wordsAt memory start n).getD i 0#32 = memory (start + BitVec.ofNat 32 i) := by
  rw [getD_eq_getElem _ _ (by simpa using inside)]
  simp [wordsAt]

@[simp] theorem putList_nil : putList memory start [] = memory := by
  funext a
  rw [putList, putWords, length_nil, if_neg (Nat.not_lt_zero _)]

theorem putWords_eq_putList (len : Nat) (fn : Nat → Word) :
    putWords memory start len fn = putList memory start ((List.range len).map fn) := by
  funext a
  simp only [putList, putWords, length_map, length_range]
  by_cases inside : (a - start).toNat < len
  · rw [if_pos inside, if_pos inside]
    rw [getD_eq_getElem _ _ (by simpa using inside), getElem_map, getElem_range]
  · rw [if_neg inside, if_neg inside]

theorem toNat_sub_add {a : Word} {n : Nat} (inside : n ≤ (a - start).toNat) :
    (a - (start + BitVec.ofNat 32 n)).toNat = (a - start).toNat - n := by
  have small := (a - start).isLt
  have split : a - (start + BitVec.ofNat 32 n) = a - start - BitVec.ofNat 32 n := by
    bv_omega
  rw [split, toNat_sub_of_le]
  · rw [toNat_ofNat, Nat.mod_eq_of_lt (by omega)]
  · rw [le_def, toNat_ofNat, Nat.mod_eq_of_lt (by omega)]
    exact inside

theorem toNat_sub_add_of_lt {a : Word} {n : Nat} (inside : (a - start).toNat < n) (small : n < 2 ^ 32) :
    (a - (start + BitVec.ofNat 32 n)).toNat = 2 ^ 32 - n + (a - start).toNat := by
  have split : a - (start + BitVec.ofNat 32 n) = a - start - BitVec.ofNat 32 n := by
    bv_omega
  rw [split, toNat_sub, toNat_ofNat, Nat.mod_eq_of_lt small, Nat.mod_eq_of_lt (by omega)]

/-- **One run of words after the other.** -/
theorem putList_append (small : words.length + more.length < 2 ^ 32) :
    putList (putList memory start words) (start + BitVec.ofNat 32 words.length) more =
      putList memory start (words ++ more) := by
  funext a
  simp only [putList, putWords, length_append]
  by_cases before : (a - start).toNat < words.length
  · rw [toNat_sub_add_of_lt before (by omega), if_neg (by omega), if_pos before, if_pos (by omega),
      getD_append _ _ _ _ before]
  · rw [toNat_sub_add (by omega), if_neg before, getD_append_right _ _ _ _ (by omega)]
    by_cases behind : (a - start).toNat - words.length < more.length
    · rw [if_pos behind, if_pos (by omega)]
    · rw [if_neg behind, if_neg (by omega)]

theorem putList_word {i : Nat} (inside : i < words.length) (small : words.length < 2 ^ 32) :
    putList memory start words (start + BitVec.ofNat 32 i) = words.getD i 0#32 := by
  have place : (start + BitVec.ofNat 32 i - start).toNat = i := by
    rw [add_comm, add_sub_cancel, toNat_ofNat, Nat.mod_eq_of_lt (by omega)]
  rw [putList, putWords, place, if_pos inside]

theorem wordsAt_putList {k n : Nat} (inside : k + n ≤ words.length) (small : words.length < 2 ^ 32) :
    wordsAt (putList memory start words) (start + BitVec.ofNat 32 k) n = (words.drop k).take n := by
  refine ext_getElem (by simp; omega) fun i here there => ?_
  have within : i < n := by simpa using here
  have place : start + BitVec.ofNat 32 k + BitVec.ofNat 32 i = start + BitVec.ofNat 32 (k + i) := by
    rw [add_assoc, ofNat_add]
  simp only [wordsAt, getElem_map, getElem_range, getElem_take, getElem_drop, place]
  rw [putList_word (by omega) small, getD_eq_getElem _ _ (by omega)]

theorem wordsAt_putList_map {n : Nat} {fn : Nat → Word} (small : n < 2 ^ 32) :
    wordsAt (putList memory start ((List.range n).map fn)) start n = (List.range n).map fn := by
  refine map_congr_left fun i member => ?_
  have inside := mem_range.mp member
  rw [putList_word (by simpa using inside) (by simpa using small),
    getD_eq_getElem _ _ (by simpa using inside),
    getElem_map, getElem_range]

end Words

/-! ### Steps of a program -/

section Steps

variable {α β : Type} {w : World} {who : ProcNr} {f : FilpNr}

theorem onFiles_run {x : FilesM α} {a : α} {files : Files} (ran : x w.files = some (a, files)) :
    (onFiles x).erase w = some (a, { w with files }) := by
  show (x w.files).map _ = _
  rw [ran, Option.map_some]

theorem onDisks_run {x : VolM α} {a : α} {vol : Volume} (ran : x w.files.vol = some (a, vol)) :
    (onDisks x).erase w = some (a, { w with files := { w.files with vol } }) := by
  refine onFiles_run ?_
  simp only [onVolume, ran, Option.map_some]

theorem readWorld_erase {next : World → AccessM β} : (readWorld >>= next).erase w = (next w).erase w :=
  rfl

theorem writeUser_erase {start : Word} {len : Nat} {words : Nat → Word} :
    (writeUser who start len words).erase w = some (⟨⟩,
      { w with kernel := { w.kernel with memory := putWords w.kernel.memory start len words } }) := rfl

theorem setDirPos_erase {change : DirPos → DirPos} : (setDirPos f change).erase w =
    some (⟨⟩, { w with dirPos := Function.update w.dirPos f (change (w.dirPos f)) }) := rfl

end Steps

end Winix.Fs
