/-
**Addresses of a process.**

`is_vaddr_ok` of `winix/mm.c`: the bit of an address's page in the protection table of a process.
The page is the quotient of signed numbers and `is_bit_on` only refuses pages above the table, so a
page below zero and the first page above the table are looked up as well, in the words that lie
beside the table and beside the masks.

* `Owns`: the page of a physical address is one of the table's and its bit is set;
* `isVaddrOk_iff_owns`: for the addresses of the table's pages the check is exact;
* **`isVaddrOk_exact_iff`**: which addresses are checked exactly, without a read beside the table;
* `room`: the words from an address up to the first page that the process does not own;
* **`owns_run_iff`**: a run of words belongs to a process if and only if it fits into the room.
-/

import Winix.Kernel.Boot
import Winix.Kernel.Pages
import Winix.Kernel.Sigcalls

namespace Winix.Kernel

open Lib

/-! ### The code -/

/-- `PTABLE_LEN`. -/
def ptableLen : Nat := 32

/-- The protection tables. A word below the first or above the last one of a table is what lies there
in memory, and so is what lies before the masks of `bitmap.c`. -/
structure Tables where
  ptable : ProcNr → Int → Word
  beforeMask : Int → Word

namespace Tables

/-- `mask[j]`. -/
def mask (t : Tables) (j : Int) : Word :=
  if 0 ≤ j then BitVec.twoPow 32 (31 - j.toNat) else t.beforeMask j

/-- `is_bit_on(who->ctx.ptable, PTABLE_LEN, bit)`. -/
def isBitOn (t : Tables) (who : ProcNr) (bit : Int) : Bool :=
  if (ptableLen * 32 : Int) < bit then false
  else t.ptable who (bit.tdiv 32) &&& t.mask (bit.tmod 32) != 0#32

/-- `is_vaddr_ok`. -/
def isVaddrOk (t : Tables) : AddressCheck := fun k who addr =>
  t.isBitOn who ((physicalAddr (k.procTable who) addr).toInt.tdiv pageLen)

/-- The words of the table. -/
def words (t : Tables) (who : ProcNr) : Nat → Word := fun i => t.ptable who i

end Tables

/-! ### The pages of a process -/

/-- The words of the pages that a table has a bit for. -/
def tableReach : Nat := ptableLen * 32 * pageLen

/-- The address is in a page whose bit is set. -/
def Owns (t : Tables) (who : ProcNr) (a : Word) : Prop :=
  a.toNat < tableReach ∧ bitOn (t.words who) (a.toNat / pageLen) = true

instance (t : Tables) (who : ProcNr) (a : Word) : Decidable (Owns t who a) :=
  inferInstanceAs (Decidable (_ ∧ _))

variable {t : Tables} {k : Machine} {who : ProcNr} {addr a : Word}

theorem and_twoPow_ne_zero (word : Word) {bit : Nat} (small : bit < 32) :
    (word &&& BitVec.twoPow 32 bit != 0#32) = hasBit word bit := by
  rw [BitVec.and_twoPow, hasBit]
  cases word.getLsbD bit with
  | false => rfl
  | true =>
    rw [if_pos rfl, bne_iff_ne]
    intro zero
    have here := congrArg (fun word => word.getLsbD bit) zero
    simp [small] at here

theorem isBitOn_page {page : Nat} (inside : page < 1024) :
    t.isBitOn who page = bitOn (t.words who) page := by
  have quotient : (page : Int).tdiv 32 = ((page / 32 : Nat) : Int) := rfl
  have remainder : (page : Int).tmod 32 = ((page % 32 : Nat) : Int) := rfl
  unfold Tables.isBitOn Tables.mask
  rw [quotient, remainder, if_neg (by unfold ptableLen; omega), if_pos (Int.natCast_nonneg _)]
  exact and_twoPow_ne_zero _ (by omega)

/-- **In the reach of the table, the check is exact.** -/
theorem isVaddrOk_iff_owns (inside : (physicalAddr (k.procTable who) addr).toNat < tableReach) :
    t.isVaddrOk k who addr = true ↔ Owns t who (physicalAddr (k.procTable who) addr) := by
  unfold tableReach ptableLen pageLen at inside
  have page : (physicalAddr (k.procTable who) addr).toInt.tdiv pageLen =
      (((physicalAddr (k.procTable who) addr).toNat / pageLen : Nat) : Int) := by
    rw [BitVec.toInt_eq_toNat_of_lt (by omega)]
    rfl
  rw [Tables.isVaddrOk, page, isBitOn_page (by unfold pageLen; omega), Owns]
  exact ⟨fun on => ⟨inside, on⟩, And.right⟩

/-! ### Every address -/

/-- The places of the word and of the mask that `is_bit_on` reads, if it reads them. -/
def bitReads (bit : Int) : Option (Int × Int) :=
  if (ptableLen * 32 : Int) < bit then none else some (bit.tdiv 32, bit.tmod 32)

theorem isBitOn_eq (bit : Int) : t.isBitOn who bit =
    (bitReads bit).any fun place => t.ptable who place.1 &&& t.mask place.2 != 0#32 := by
  unfold Tables.isBitOn bitReads
  split <;> rfl

/-- The check tells whether the process owns the word, and only reads the table and the masks. -/
def ExactCheck (t : Tables) (k : Machine) (who : ProcNr) (addr : Word) : Prop :=
  (t.isVaddrOk k who addr = true ↔ Owns t who (physicalAddr (k.procTable who) addr)) ∧
    ∀ place ∈ bitReads ((physicalAddr (k.procTable who) addr).toInt.tdiv pageLen),
      (0 ≤ place.1 ∧ place.1 < ptableLen) ∧ 0 ≤ place.2 ∧ place.2 < 32

theorem bitReads_inside_iff {bit : Int} :
    (∀ place ∈ bitReads bit, (0 ≤ place.1 ∧ place.1 < ptableLen) ∧ 0 ≤ place.2 ∧ place.2 < 32) ↔
      0 ≤ bit ∧ bit ≠ 1024 := by
  unfold bitReads ptableLen
  by_cases above : 1024 < bit
  · rw [if_pos (by omega)]
    exact ⟨fun _ => by omega, fun _ place none => by cases none⟩
  rw [if_neg (by omega)]
  simp only [Option.mem_some_iff, forall_eq']
  have whole := Int.mul_tdiv_add_tmod bit 32
  constructor
  · omega
  · intro inside
    have quotient := @Int.tdiv_eq_ediv_of_nonneg bit 32 inside.1
    have remainder := @Int.tmod_eq_emod_of_nonneg bit 32 inside.1
    omega

/-- **The check is exact** for the pages of the table, for those above the one after it, and, if the
process does not own page 0, for the 1023 words below zero, which the quotient takes for that page. -/
theorem isVaddrOk_exact_iff (t : Tables) (k : Machine) (who : ProcNr) (addr : Word) :
    let a := (physicalAddr (k.procTable who) addr).toInt
    ExactCheck t k who addr ↔ 0 ≤ a ∧ a < tableReach ∨ tableReach + pageLen ≤ a ∨
      -pageLen < a ∧ a < 0 ∧ bitOn (t.words who) 0 = false := by
  rw [ExactCheck, bitReads_inside_iff]
  by_cases table : (physicalAddr (k.procTable who) addr).toNat < tableReach
  · have check := @isVaddrOk_iff_owns t k who addr table
    unfold tableReach ptableLen pageLen at *
    rw [BitVec.toInt_eq_toNat_of_lt (by omega)]
    have page : ((physicalAddr (k.procTable who) addr).toNat : Int).tdiv (1024 : Nat) =
      (((physicalAddr (k.procTable who) addr).toNat / 1024 : Nat) : Int) := rfl
    exact iff_of_true ⟨check, by omega⟩ (Or.inl (by omega))
  have not : ¬ Owns t who (physicalAddr (k.procTable who) addr) := fun owns => table owns.1
  simp only [not, iff_false, Bool.not_eq_true, Tables.isVaddrOk]
  have signed := BitVec.toInt_eq_toNat_cond (physicalAddr (k.procTable who) addr)
  generalize (physicalAddr (k.procTable who) addr).toInt = a at signed ⊢
  have page : a.tdiv pageLen = if 0 ≤ a then a / pageLen else -(-a / pageLen) := by
    split
    · exact Int.tdiv_eq_ediv_of_nonneg (by assumption)
    · rw [← Int.tdiv_eq_ediv_of_nonneg (by omega), Int.neg_tdiv, neg_neg]
  unfold tableReach ptableLen pageLen at *
  generalize a.tdiv (1024 : Nat) = bit at page ⊢
  rcases lt_trichotomy bit 0 with low | rfl | high
  · split at signed <;> split at page <;> omega
  · have first : t.isBitOn who 0 = bitOn (t.words who) 0 := isBitOn_page (by decide)
    have below : -1024 < a ∧ a < 0 := by split at signed <;> split at page <;> omega
    rw [first]
    constructor
    · exact fun off => Or.inr (Or.inr ⟨below.1, below.2, off.1⟩)
    · rintro (inside | far | ⟨-, -, off⟩)
      · omega
      · omega
      · exact ⟨off, by decide⟩
  · have above (far : 1024 < bit) : t.isBitOn who bit = false := by
      rw [isBitOn_eq, bitReads, if_pos (by exact far)]
      rfl
    have page : 1024 ≤ bit ∧ (bit = 1024 ↔ a < 1024 * 1025) := by
      split at signed <;> split at page <;> omega
    exact ⟨fun _ => by omega, fun _ => ⟨above (by omega), by omega⟩⟩

/-- **The page after the last one**: the process owns nothing, and its address is found good in the word
above the table. -/
theorem above_table_accepted :
    let t : Tables := ⟨fun _ i => if i = 32 then 0xffffffff else 0, fun _ => 0⟩
    let k := bootMachine [1] (fun _ => 0x1000) (fun _ => 0) fun _ => 0
    bitReads ((physicalAddr (k.procTable 1) 0xff000).toInt.tdiv pageLen) = some (32, 0) ∧
      t.isVaddrOk k 1 0xff000 = true ∧ ¬ ExactCheck t k 1 0xff000 := by
  refine ⟨by decide, by decide, fun check => ?_⟩
  have owns := check.1.mp (by decide)
  exact absurd owns.1 (by decide)

/-! ### Runs of words -/

/-- The words of the pages that are on, from a page to the first one that is not. -/
def roomFrom (on : Nat → Bool) : Nat → Nat → Nat
  | 0, _ => 0
  | left + 1, page => if on page then pageLen + roomFrom on left (page + 1) else 0

/-- The words from an address to the first page that the process does not own. -/
def room (t : Tables) (who : ProcNr) (a : Word) : Nat :=
  roomFrom (bitOn (t.words who)) (1024 - a.toNat / pageLen) (a.toNat / pageLen) - a.toNat % pageLen

/-- The words of a page on from its first one, and how many of them are in pages that are on. -/
theorem le_roomFrom_iff {on : Nat → Bool} {left page n : Nat} (whole : left + page = 1024) :
    (∀ x, pageLen * page ≤ x → x < pageLen * page + n → x < tableReach ∧ on (x / pageLen) = true) ↔
      n ≤ roomFrom on left page := by
  induction left generalizing page n with
  | zero =>
    unfold roomFrom tableReach ptableLen pageLen
    constructor
    · intro all
      by_contra some'
      exact absurd (all (1024 * page) le_rfl (by omega)).1 (by omega)
    · intro none x low high
      omega
  | succ left ih =>
    have next := @ih (page + 1) (n - pageLen) (by omega)
    rw [Nat.mul_succ] at next
    unfold roomFrom
    unfold tableReach ptableLen pageLen at *
    by_cases here : on page = true
    · rw [if_pos here, show n ≤ 1024 + roomFrom on left (page + 1) ↔
        n - 1024 ≤ roomFrom on left (page + 1) by omega, ← next]
      constructor
      · intro all x low high
        exact all x (by omega) (by omega)
      · intro all x low high
        by_cases first : x < 1024 * page + 1024
        · rw [show x / 1024 = page by omega]
          exact ⟨by omega, here⟩
        · exact all x (by omega) (by omega)
    · rw [if_neg here]
      constructor
      · intro all
        by_contra some'
        have first := (all (1024 * page) le_rfl (by omega)).2
        rw [Nat.mul_div_cancel_left _ (by decide)] at first
        exact here first
      · intro none x low high
        omega

theorem owns_run_toNat {n : Nat} : (∀ i < n, Owns t who (a + BitVec.ofNat 32 i)) ↔
    ∀ i < n, a.toNat + i < tableReach ∧ bitOn (t.words who) ((a.toNat + i) / pageLen) = true := by
  have noWrap {i : Nat} (small : a.toNat + i ≤ tableReach) :
      (a + BitVec.ofNat 32 i).toNat = a.toNat + i := by
    unfold tableReach ptableLen pageLen at small
    rw [BitVec.toNat_add, BitVec.toNat_ofNat]
    omega
  constructor
  · intro all
    -- the run does not get past the reach of the table, so no address wraps around
    have below : ∀ i < n, a.toNat + i < tableReach := by
      intro i
      induction i with
      | zero =>
        intro small
        have first := (all 0 small).1
        rwa [BitVec.add_zero] at first
      | succ i ih =>
        intro small
        have next := (all (i + 1) small).1
        rwa [noWrap (ih (by omega))] at next
    intro i small
    have owns := all i small
    rwa [Owns, noWrap (below i small).le] at owns
  · intro all i small
    rw [Owns, noWrap (all i small).1.le]
    exact all i small

/-- **A run of words belongs to the process** if and only if it fits into the room. -/
theorem owns_run_iff {n : Nat} : (∀ i < n, Owns t who (a + BitVec.ofNat 32 i)) ↔ n ≤ room t who a := by
  rw [owns_run_toNat]
  unfold room
  rcases Nat.eq_zero_or_pos n with rfl | some'
  · simp
  by_cases inside : a.toNat / pageLen ≤ 1024
  · -- the page of the first word, from its beginning on
    rw [show ∀ r, n ≤ r - a.toNat % pageLen ↔ a.toNat % pageLen + n ≤ r by omega,
      ← le_roomFrom_iff (by omega)]
    have place : pageLen * (a.toNat / pageLen) + a.toNat % pageLen = a.toNat := Nat.div_add_mod ..
    unfold pageLen at *
    constructor
    · intro all x low high
      by_cases before : x < a.toNat
      · have first := all 0 some'
        rw [Nat.add_zero] at first
        rw [show x / 1024 = a.toNat / 1024 by omega]
        exact ⟨by omega, first.2⟩
      · have later := all (x - a.toNat) (by omega)
        rwa [Nat.add_sub_cancel' (by omega)] at later
    · intro all i small
      exact all (a.toNat + i) (by omega) (by omega)
  · rw [show 1024 - a.toNat / pageLen = 0 by omega, roomFrom, Nat.zero_sub]
    constructor
    · intro all
      have first := (all 0 some').1
      unfold tableReach ptableLen pageLen at *
      omega
    · intro none
      omega

end Winix.Kernel
