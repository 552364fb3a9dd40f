/-
**Bitmaps.**

`winix/bitmap.c`. A bitmap is an array of words; bit 0 is the most significant bit of the first word
(`mask[0]`). The lemmas say what the operations do to the bits, so that no later proof looks at a
word of a map.
-/

import Winix.Kernel.Message
import Mathlib.Order.Bounds.OrderIso
import Mathlib.Tactic.ByContra

namespace Winix.Kernel

open Lib Function List

/-- The bit of the map, `map[bit / 32] & mask[bit % 32]`. -/
def bitOn (map : Nat → Word) (bit : Nat) : Bool := hasBit (map (bit / 32)) (31 - bit % 32)

/-- `is_bit_on`. -/
def isBitOn (map : Nat → Word) (mapLen bit : Nat) : Bool :=
  if mapLen * 32 < bit then false else bitOn map bit

/-- `map[bit / 32] |= mask[bit % 32]`. -/
def markBit (map : Nat → Word) (bit : Nat) : Nat → Word :=
  update map (bit / 32) (setBit (map (bit / 32)) (31 - bit % 32))

/-- `map[bit / 32] &= ~mask[bit % 32]`. -/
def eraseBit (map : Nat → Word) (bit : Nat) : Nat → Word :=
  update map (bit / 32) (clearBit (map (bit / 32)) (31 - bit % 32))

/-- `bitmap_set_bit`; no caller looks at what it returns. -/
def bitmapSetBit (map : Nat → Word) (mapLen start : Nat) : Nat → Word :=
  if mapLen * 32 ≤ start then map else markBit map start

/-- `bitmap_clear_bit`; no caller looks at what it returns. -/
def bitmapClearBit (map : Nat → Word) (mapLen start : Nat) : Nat → Word :=
  if mapLen * 32 ≤ start then map else eraseBit map start

/-- The two loops of `bitmap_search_from` with this many bits to go: the first of `num` free bits in a
row; `count` bits before this one are free. -/
def searchBits (map : Nat → Word) (num : Nat) : Nat → Nat → Nat → Option Nat
  | 0, _, _ => none
  | left + 1, bit, count =>
    if bitOn map bit then searchBits map num left (bit + 1) 0
    else if count + 1 = num then some (bit - count)
    else searchBits map num left (bit + 1) (count + 1)

/-- `bitmap_search_from`; nothing is `ERR`. -/
def bitmapSearchFrom (map : Nat → Word) (mapLen start num : Nat) : Option Nat :=
  if mapLen * 32 ≤ num ∨ mapLen * 32 ≤ start then none
  else searchBits map num (mapLen * 32 - start) start 0

/-- The two loops of `bitmap_search_reverse` with this many bits to go. -/
def searchBitsDown (map : Nat → Word) (num : Nat) : Nat → Nat → Option Nat
  | 0, _ => none
  | bit + 1, count =>
    if bitOn map bit then searchBitsDown map num bit 0
    else if count + 1 = num then some bit
    else searchBitsDown map num bit (count + 1)

/-- `bitmap_search_reverse`; nothing is `ERR`. -/
def bitmapSearchReverse (map : Nat → Word) (mapLen num : Nat) : Option Nat :=
  if mapLen * 32 ≤ num then none else searchBitsDown map num (mapLen * 32) 0

/-- The loop of `bitmap_set_nbits`. -/
def markRun (map : Nat → Word) (start len : Nat) : Nat → Word :=
  (List.range len).foldl (fun map i => markBit map (start + i)) map

/-- The loop of `bitmap_clear_nbits`. -/
def eraseRun (map : Nat → Word) (start len : Nat) : Nat → Word :=
  (List.range len).foldl (fun map i => eraseBit map (start + i)) map

/-- Both return `OK` for a run that ends before the last bit, and `ERR` for any other. -/
def nbitsFit (mapLen start len : Nat) : Bool := !decide (mapLen * 32 ≤ start + len)

/-- What `bitmap_set_nbits` makes of the map. -/
def bitmapSetNbits (map : Nat → Word) (mapLen start len : Nat) : Nat → Word :=
  if mapLen * 32 ≤ start + len then map else markRun map start len

/-- What `bitmap_clear_nbits` makes of the map. -/
def bitmapClearNbits (map : Nat → Word) (mapLen start len : Nat) : Nat → Word :=
  if mapLen * 32 ≤ start + len then map else eraseRun map start len

/-! ### The bits -/

section Bits

variable (map : Nat → Word) {bit other : Nat}

/-- Another bit, where no other bit of the word changes. -/
theorem bitOn_update_of_ne {word : Word}
    (same : ∀ {place}, place ≠ 31 - bit % 32 → hasBit word place = hasBit (map (bit / 32)) place)
    (ne : other ≠ bit) : bitOn (update map (bit / 32) word) other = bitOn map other := by
  unfold bitOn
  by_cases here : other / 32 = bit / 32
  · rw [here, update_self]
    exact same fun place => ne (by omega)
  · rw [update_of_ne here]

theorem bitOn_markBit (bit other : Nat) :
    bitOn (markBit map bit) other = (decide (other = bit) || bitOn map other) := by
  by_cases here : other = bit
  · rw [here, bitOn, markBit, update_self, hasBit_setBit_self _ (by omega), decide_eq_true rfl,
      Bool.true_or]
  · rw [markBit, bitOn_update_of_ne map (hasBit_setBit_of_ne _) here, decide_eq_false here,
      Bool.false_or]

theorem bitOn_eraseBit (bit other : Nat) :
    bitOn (eraseBit map bit) other = (!decide (other = bit) && bitOn map other) := by
  by_cases here : other = bit
  · rw [here, bitOn, eraseBit, update_self, hasBit_clearBit_self, decide_eq_true rfl, Bool.not_true,
      Bool.false_and]
  · rw [eraseBit, bitOn_update_of_ne map (hasBit_clearBit_of_ne _) here, decide_eq_false here,
      Bool.not_false,
      Bool.true_and]

/-- **A run is set.** -/
theorem bitOn_markRun (start len other : Nat) : bitOn (markRun map start len) other =
    (decide (start ≤ other ∧ other < start + len) || bitOn map other) := by
  induction len with
  | zero => rw [decide_eq_false (by omega), Bool.false_or, markRun, range_zero, foldl_nil]
  | succ len ih =>
    have last : markRun map start (len + 1) = markBit (markRun map start len) (start + len) := by
      rw [markRun, range_succ, foldl_append]
      rfl
    rw [last, bitOn_markBit, ih, ← Bool.or_assoc, ← Bool.decide_or]
    congr 2
    exact propext (by omega)

/-- **A run is cleared.** -/
theorem bitOn_eraseRun (start len other : Nat) : bitOn (eraseRun map start len) other =
    (!decide (start ≤ other ∧ other < start + len) && bitOn map other) := by
  induction len with
  | zero =>
    rw [decide_eq_false (by omega), Bool.not_false, Bool.true_and, eraseRun, range_zero, foldl_nil]
  | succ len ih =>
    have last : eraseRun map start (len + 1) = eraseBit (eraseRun map start len) (start + len) := by
      rw [eraseRun, range_succ, foldl_append]
      rfl
    rw [last, bitOn_eraseBit, ih, ← Bool.and_assoc, ← decide_not, ← decide_not, ← decide_not,
      ← Bool.decide_and]
    congr 2
    exact propext (by omega)

/-- The bits make the map: each place of a word is one of them. -/
theorem map_ext {map' : Nat → Word} (same : ∀ bit, bitOn map' bit = bitOn map bit) : map' = map := by
  funext w
  refine BitVec.eq_of_getLsbD_eq fun place small => ?_
  have here := same (32 * w + (31 - place))
  rwa [bitOn, bitOn, show (32 * w + (31 - place)) / 32 = w by omega,
    show 31 - (32 * w + (31 - place)) % 32 = place by omega] at here

/-- **What `bitmap_search_from` finds**: free bits in the map. By
induction on the bits to go, with the free bits right before the current one. -/
theorem searchBits_eq_some {num left bit count found : Nat} (counted : count ≤ bit)
    (free : ∀ i, bit - count ≤ i → i < bit → bitOn map i = false)
    (search : searchBits map num left bit count = some found) :
    bit - count ≤ found ∧ 0 < num ∧ found + num ≤ bit + left ∧
      ∀ i, found ≤ i → i < found + num → bitOn map i = false := by
  induction left generalizing bit count with
  | zero => cases search
  | succ left ih =>
    unfold searchBits at search
    -- a free bit lengthens the row
    have longer (clear : ¬ bitOn map bit = true) (i : Nat) (low : bit - count ≤ i)
      (high : i < bit + 1) :
        bitOn map i = false := by
      rcases Nat.lt_or_ge i bit with before | here
      · exact free i low before
      · obtain rfl : i = bit := by omega
        exact Bool.eq_false_iff.mpr clear
    split_ifs at search with taken last
    · obtain ⟨above, positive, below, clear⟩ := ih (Nat.zero_le _) (fun i low high => by omega) search
      exact ⟨by omega, positive, by omega, clear⟩
    · cases search
      exact ⟨le_rfl, by omega, by omega, fun i low high => longer taken i low (by omega)⟩
    · obtain ⟨above, positive, below, clear⟩ :=
        ih (by omega) (fun i low => longer taken i (by omega)) search
      exact ⟨by omega, positive, by omega, clear⟩

/-- A free run from the row on: it is found, or one before it. -/
theorem searchBits_of_run {num left bit count s : Nat} (counted : count ≤ bit) (less : count < num)
    (low : bit - count ≤ s) (fits : s + num ≤ bit + left)
    (free : ∀ i, s ≤ i → i < s + num → bitOn map i = false) :
    ∃ found ≤ s, searchBits map num left bit count = some found := by
  induction left generalizing bit count with
  | zero => omega
  | succ left ih =>
    unfold searchBits
    split_ifs with taken last
    · have later : bit < s := by
        by_contra here
        rw [free bit (by omega) (by omega)] at taken
        cases taken
      exact ih (Nat.zero_le _) (by omega) (by omega) (by omega)
    · exact ⟨bit - count, low, rfl⟩
    · exact ih (by omega) (by omega) (by omega) (by omega)

theorem searchBits_one (left bit : Nat) :
    searchBits map 1 left bit 0 = (List.range' bit left).find? fun n => !bitOn map n := by
  induction left generalizing bit with
  | zero => rfl
  | succ left ih =>
    rw [searchBits, range'_succ, find?_cons]
    by_cases taken : bitOn map bit = true
    · rw [if_pos taken, taken, ih]
      rfl
    · rw [if_neg taken, if_pos rfl, Bool.eq_false_of_not_eq_true taken]
      rfl

theorem bitmapSearchFrom_one {mapLen : Nat} (long : 0 < mapLen) :
    bitmapSearchFrom map mapLen 0 1 = (List.range (mapLen * 32)).find? fun n => !bitOn map n := by
  rw [bitmapSearchFrom, if_neg (by omega), Nat.sub_zero, searchBits_one, range_eq_range']

/-- **What `bitmap_search_reverse` finds.** -/
theorem searchBitsDown_eq_some {num bit count found : Nat}
    (free : ∀ i, bit ≤ i → i < bit + count → bitOn map i = false)
    (search : searchBitsDown map num bit count = some found) :
    0 < num ∧ found + num ≤ bit + count ∧ ∀ i, found ≤ i → i < found + num → bitOn map i = false := by
  induction bit generalizing count with
  | zero => cases search
  | succ bit ih =>
    unfold searchBitsDown at search
    have longer (clear : ¬ bitOn map bit = true) (i : Nat) (low : bit ≤ i)
        (high : i < bit + (count + 1)) : bitOn map i = false := by
      rcases Nat.eq_or_lt_of_le low with rfl | above
      · exact Bool.eq_false_iff.mpr clear
      · exact free i above (by omega)
    split_ifs at search with taken last
    · obtain ⟨positive, below, clear⟩ := ih (fun i low high => by omega) search
      exact ⟨positive, by omega, clear⟩
    · cases search
      exact ⟨by omega, by omega, fun i low high => longer taken i low (by omega)⟩
    · obtain ⟨positive, below, clear⟩ := ih (longer taken) search
      exact ⟨positive, by omega, clear⟩

theorem searchBitsDown_of_run {num bit count s : Nat} (less : count < num)
    (fits : s + num ≤ bit + count)
    (free : ∀ i, s ≤ i → i < s + num → bitOn map i = false) :
    ∃ found, s ≤ found ∧ searchBitsDown map num bit count = some found := by
  induction bit generalizing count with
  | zero => omega
  | succ bit ih =>
    unfold searchBitsDown
    split_ifs with taken last
    · have earlier : s + num ≤ bit := by
        by_contra here
        rw [free bit (by omega) (by omega)] at taken
        cases taken
      exact ih (by omega) earlier
    · exact ⟨bit, by omega, rfl⟩
    · exact ih (by omega) (by omega)

end Bits

/-! ### The searches -/

/-- A run of free bits in the map. -/
def FreeRun (map : Nat → Word) (mapLen num s : Nat) : Prop :=
  s + num ≤ mapLen * 32 ∧ ∀ i, s ≤ i → i < s + num → bitOn map i = false

section Search

variable {map : Nat → Word} {mapLen start num s : Nat}

theorem bitmapSearchFrom_sound (found : bitmapSearchFrom map mapLen start num = some s) :
    0 < num ∧ start ≤ s ∧ FreeRun map mapLen num s := by
  unfold bitmapSearchFrom at found
  split_ifs at found
  obtain ⟨low, positive, high, free⟩ :=
    searchBits_eq_some map (Nat.zero_le _) (fun i low high => by omega) found
  exact ⟨positive, low, by omega, free⟩

theorem bitmapSearchReverse_sound (found : bitmapSearchReverse map mapLen num = some s) :
    0 < num ∧ FreeRun map mapLen num s := by
  unfold bitmapSearchReverse at found
  split_ifs at found
  exact @searchBitsDown_eq_some map num _ 0 s (fun i low high => by omega) found

/-- A search finds the first run from its start on, the other one the last run of the map. -/
def SearchesExact (map : Nat → Word) (mapLen start num : Nat) : Prop :=
  (∀ s, bitmapSearchFrom map mapLen start num = some s ↔
    IsLeast { s | start ≤ s ∧ FreeRun map mapLen num s } s) ∧
  (bitmapSearchFrom map mapLen start num = none ↔ { s | start ≤ s ∧ FreeRun map mapLen num s } = ∅) ∧
  (∀ s, bitmapSearchReverse map mapLen num = some s ↔ IsGreatest { s | FreeRun map mapLen num s } s) ∧
  (bitmapSearchReverse map mapLen num = none ↔ { s | FreeRun map mapLen num s } = ∅)

/-- **The searches are exact.** -/
theorem bitmap_searches_exact (map : Nat → Word) (inRange : start < mapLen * 32) (positive : 1 ≤ num)
    (small : num < mapLen * 32) : SearchesExact map mapLen start num := by
  have up := @isLeast_iff_of_search Nat _ (bitmapSearchFrom map mapLen start num)
    { s | start ≤ s ∧ FreeRun map mapLen num s }
    (fun found => (bitmapSearchFrom_sound found).2) fun run => by
      rw [bitmapSearchFrom, if_neg (by omega)]
      exact searchBits_of_run map (Nat.zero_le _) positive run.1 (by have := run.2.1; omega) run.2.2
  have down := @isLeast_iff_of_search (OrderDual Nat) _ (bitmapSearchReverse map mapLen num)
    { s | FreeRun map mapLen num s } (fun found => (bitmapSearchReverse_sound found).2) fun run => by
      rw [bitmapSearchReverse, if_neg (by omega)]
      exact searchBitsDown_of_run map positive run.1 run.2
  exact ⟨up.1, up.2, down⟩

/-- Eight bits in maps of two words, from the third on. -/
theorem eight_bits_searched : SearchesExact (fun _ => 0xf00ff00f#32) 2 3 8 :=
  bitmap_searches_exact _ (by decide) (by decide) (by decide)

/-- Both calls take the run, and only the run is set in between. -/
def SetAndCleared (map : Nat → Word) (mapLen num s : Nat) : Prop :=
  nbitsFit mapLen s num = true ∧
  (∀ bit, bitOn (bitmapSetNbits map mapLen s num) bit =
    (decide (s ≤ bit ∧ bit < s + num) || bitOn map bit)) ∧
  bitmapClearNbits (bitmapSetNbits map mapLen s num) mapLen s num = map

/-- What the searches find can be set and cleared. -/
def RunsFit (map : Nat → Word) (mapLen start num : Nat) : Prop :=
  ∀ s, bitmapSearchFrom map mapLen start num = some s ∨ bitmapSearchReverse map mapLen num = some s →
    SetAndCleared map mapLen num s

theorem FreeRun.setAndCleared (run : FreeRun map mapLen num s) (inside : s + num < mapLen * 32) :
    SetAndCleared map mapLen num s := by
  refine ⟨by simpa [nbitsFit] using inside, fun bit => ?_, map_ext map fun bit => ?_⟩
  · rw [bitmapSetNbits, if_neg inside.not_ge, bitOn_markRun]
  · rw [bitmapClearNbits, if_neg inside.not_ge, bitmapSetNbits, if_neg inside.not_ge, bitOn_eraseRun,
      bitOn_markRun]
    by_cases member : s ≤ bit ∧ bit < s + num
    · rw [run.2 bit member.1 member.2, decide_eq_true member]
      rfl
    · rw [decide_eq_false member, Bool.not_false, Bool.true_and, Bool.false_or]

/-- **The searches find a run at the end of the map, and the other two calls refuse it.** -/
theorem runs_fit_iff (map : Nat → Word) (mapLen start num : Nat) : RunsFit map mapLen start num ↔
    ¬ (0 < num ∧ num < mapLen * 32 ∧ FreeRun map mapLen num (mapLen * 32 - num)) := by
  constructor
  · rintro fit ⟨positive, small, run⟩
    obtain ⟨s, low, search⟩ := @searchBitsDown_of_run map num (mapLen * 32) 0 _ positive run.1 run.2
    have found : bitmapSearchReverse map mapLen num = some s := by
      rw [bitmapSearchReverse, if_neg small.not_ge, search]
    have taken := (fit s (Or.inr found)).1
    simp [nbitsFit] at taken
    omega
  · intro cut s found
    have sound : 0 < num ∧ FreeRun map mapLen num s :=
      found.elim (fun up => ⟨(bitmapSearchFrom_sound up).1, (bitmapSearchFrom_sound up).2.2⟩)
        bitmapSearchReverse_sound
    have small : num < mapLen * 32 := by
      by_contra long
      rw [bitmapSearchFrom, bitmapSearchReverse, if_pos (by omega), if_pos (by omega)] at found
      simp at found
    refine sound.2.setAndCleared (lt_of_le_of_ne sound.2.1 fun last => cut ⟨sound.1, small, ?_⟩)
    rw [← last, Nat.add_sub_cancel]
    exact sound.2

/-- Eight bits of an empty map of one word: the last ones are found, and not set. -/
theorem last_run_refused : bitmapSearchReverse (fun _ => 0#32) 1 8 = some 24 ∧
    nbitsFit 1 24 8 = false ∧ ¬ RunsFit (fun _ => 0#32) 1 0 8 := by
  refine ⟨by decide, by decide, fun fit => ?_⟩
  have taken := (fit 24 (Or.inr (by decide))).1
  revert taken
  decide

end Search

end Winix.Kernel
