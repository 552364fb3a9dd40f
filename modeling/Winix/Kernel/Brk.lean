/-
**The break of a process.**

`kernel/system/do_brk.c`. `sys_sbrk` moves the break of the heap by a signed number of words, and
takes the pages after the heap if the break goes beyond them; `do_sbrk` and `do_brk` are the two
system calls.

* `Laid`: the heap is in order and ends with a page, and the pages of the image belong to the process;
* **`sbrk_valid_iff`**: for which sizes `sys_sbrk` keeps this or changes nothing;
* **`brk_sbrk_agree_iff`**: the two calls agree if and only if the sign of what `do_sbrk` replies
  says whether it has failed.
-/

import Winix.Kernel.Image

namespace Winix.Kernel

open Lib

/-! ### The code -/

/-- `sys_sbrk`: the new break, `0` is `NULL`. -/
def sysSbrk (who : Image) (mm : Mm) (size : Word) : (Image × Mm) × Word :=
  if size = 0#32 then ((who, mm), who.heapBreak)
  else if size.toInt < 0 then
    if who.heapTop ≤ who.heapBreak + size then
      (({ who with heapBreak := who.heapBreak + size }, mm), who.heapBreak + size)
    else ((who, mm), 0#32)
  else
    let residual := who.heapBottom - who.heapBreak
    if size.toInt ≤ residual.toInt then
      (({ who with heapBreak := who.heapBreak + size }, mm), who.heapBreak + size)
    else
      let nextPage := who.heapBottom + 1#32
      let requestSize := size - residual
      let (mm, ptable, done) := userGetFreePagesFrom mm who.ptable nextPage requestSize
      if done then
        (({ who with
            ptable := ptable
            heapBreak := who.heapBreak + size
            heapBottom := who.heapBottom + alignPage requestSize }, mm), who.heapBreak + size)
      else (({ who with ptable := ptable }, mm), 0#32)

/-- `do_sbrk`: its reply. -/
def doSbrk (who : Image) (mm : Mm) (increment : Word) : (Image × Mm) × Word :=
  let (s, ret) := sysSbrk who mm increment
  (s, s.1.virtual ret)

theorem doSbrk_reply (who : Image) (mm : Mm) (increment : Word) : (doSbrk who mm increment).2 =
    (sysSbrk who mm increment).1.1.virtual (sysSbrk who mm increment).2 := rfl

/-- `do_brk`: its reply, and the break in the message. -/
def doBrk (who : Image) (mm : Mm) (vaddr : Word) : (Image × Mm) × Int × Word :=
  let addr := who.physical vaddr
  if addr < who.heapBreak then
    if addr < who.heapTop then ((who, mm), einval, who.virtual who.heapBreak)
    else (({ who with heapBreak := addr }, mm), 0, vaddr)
  else
    let (s, newBrk) := sysSbrk who mm (addr - who.heapBreak)
    if newBrk = 0#32 then (s, enomem, who.virtual who.heapBreak)
    else (s, 0, s.1.virtual newBrk)

/-! ### The cases of `sys_sbrk` -/

section Cases

variable (who : Image) (mm : Mm) {size : Word}

theorem ne_zero_of_toInt (nonzero : size.toInt ≠ 0) : size ≠ 0#32 := by
  rintro rfl
  exact nonzero rfl

theorem sysSbrk_of_neg (negative : size.toInt < 0) :
    sysSbrk who mm size =
      if who.heapTop ≤ who.heapBreak + size then
        (({ who with heapBreak := who.heapBreak + size }, mm), who.heapBreak + size)
      else ((who, mm), 0#32) := by
  rw [sysSbrk, if_neg (ne_zero_of_toInt negative.ne), if_pos negative]

theorem sysSbrk_of_le (positive : 0 < size.toInt)
    (inside : size.toInt ≤ (who.heapBottom - who.heapBreak).toInt) :
    sysSbrk who mm size =
      (({ who with heapBreak := who.heapBreak + size }, mm), who.heapBreak + size) := by
  rw [sysSbrk, if_neg (ne_zero_of_toInt positive.ne'), if_neg (not_lt.mpr positive.le)]
  exact if_pos inside

theorem sysSbrk_of_gt (positive : 0 < size.toInt)
    (beyond : (who.heapBottom - who.heapBreak).toInt < size.toInt) :
    sysSbrk who mm size =
      let pages := userGetFreePagesFrom mm who.ptable (who.heapBottom + 1#32)
        (size - (who.heapBottom - who.heapBreak))
      if pages.2.2 then
        (({ who with
            ptable := pages.2.1
            heapBreak := who.heapBreak + size
            heapBottom := who.heapBottom + alignPage (size - (who.heapBottom - who.heapBreak)) },
              pages.1),
          who.heapBreak + size)
      else (({ who with ptable := pages.2.1 }, pages.1), 0#32) := by
  rw [sysSbrk, if_neg (ne_zero_of_toInt positive.ne'), if_neg (not_lt.mpr positive.le)]
  dsimp only
  rw [if_neg (not_le.mpr beyond)]

end Cases

/-! ### Valid layouts -/

/-- The heap is in order and ends with a page; the pages of the image are set in the table of the
process and in the memory map. -/
structure Laid (who : Image) (mm : Mm) : Prop where
  started : who.memStart ≤ who.heapBottom
  top : who.heapTop ≤ who.heapBreak
  bottom : who.heapBreak ≤ who.heapBottom
  aligned : (who.heapBottom.toNat + 1) % pageLen = 0
  pages : ∀ page, who.memStart.toNat / pageLen ≤ page → page ≤ who.heapBottom.toNat / pageLen →
    page < pagesNr ∧ bitOn who.ptable page = true ∧ bitOn mm.memMap page = true

/-- A new break, moved by the size in a valid layout, or `NULL` and nothing changed. -/
def MovedOrKept (who : Image) (mm : Mm) (size : Word) (after : (Image × Mm) × Word) : Prop :=
  (after.2 = after.1.1.heapBreak ∧ Laid after.1.1 after.1.2 ∧
    (after.1.1.heapBreak.toNat : Int) = who.heapBreak.toNat + size.toInt) ∨
  (after.2 = 0#32 ∧ after.1 = (who, mm))

/-- `sys_sbrk` returns the new break, moved by the size in a valid layout, or `NULL` and changes
nothing. -/
def SbrkValid (who : Image) (mm : Mm) (size : Word) : Prop :=
  MovedOrKept who mm size (sysSbrk who mm size)

/-- The size does not wrap below address zero, and what it asks for beyond the heap can be rounded up to
pages. -/
def SizeInRange (who : Image) (size : Word) : Prop :=
  0 ≤ (who.heapBreak.toNat : Int) + size.toInt ∧
    size.toInt - ((who.heapBottom.toNat : Int) - who.heapBreak.toNat) ≤ 2 ^ 31 - 1024

instance (who : Image) (size : Word) : Decidable (SizeInRange who size) :=
  inferInstanceAs (Decidable (_ ∧ _))

namespace Laid

variable {who : Image} {mm : Mm} {size : Word}

variable (laid : Laid who mm)
include laid

theorem inMemory : who.heapBottom.toNat < pagesNr * pageLen := by
  have last := (laid.pages (who.heapBottom.toNat / pageLen)
    (Nat.div_le_div_right (BitVec.le_def.mp laid.started)) le_rfl).1
  unfold pagesNr pageLen at *
  omega

theorem residual :
    (who.heapBottom - who.heapBreak).toInt = (who.heapBottom.toNat : Int) - who.heapBreak.toNat := by
  have inside : _ < 131072 := laid.inMemory
  have ordered := laid.bottom
  simp only [BitVec.toInt_eq_toNat_cond]
  bv_omega

theorem moved_toNat (above : 0 ≤ (who.heapBreak.toNat : Int) + size.toInt) :
    ((who.heapBreak + size).toNat : Int) = who.heapBreak.toNat + size.toInt := by
  have inside : _ < 131072 := laid.inMemory
  have ordered := laid.bottom
  simp only [BitVec.toInt_eq_toNat_cond] at *
  bv_omega

/-- A break between `heap_top` and `heap_bottom` keeps the layout. -/
theorem withBreak {brk : Word} (top : who.heapTop ≤ brk) (bottom : brk ≤ who.heapBottom) :
    Laid { who with heapBreak := brk } mm :=
  ⟨laid.started, top, bottom, laid.aligned, laid.pages⟩

/-! ### Shrinking -/

theorem shrunk (negative : size.toInt < 0) (above : 0 ≤ (who.heapBreak.toNat : Int) + size.toInt) :
    SbrkValid who mm size := by
  have moved := laid.moved_toNat above
  rw [SbrkValid, sysSbrk_of_neg who mm negative]
  split_ifs with fits
  · refine .inl ⟨rfl, laid.withBreak fits (BitVec.le_def.mpr ?_), moved⟩
    have ordered := BitVec.le_def.mp laid.bottom
    omega
  · exact .inr ⟨rfl, rfl⟩

/-- A break below address zero is a large one, and passes the comparison with `heap_top`. -/
theorem shrunk_wrapped (below : (who.heapBreak.toNat : Int) + size.toInt < 0) :
    ¬ SbrkValid who mm size := by
  have inside : _ < 131072 := laid.inMemory
  have ordered := BitVec.le_def.mp laid.bottom
  have lower := laid.top
  have wrapped : 2 ^ 31 ≤ (who.heapBreak + size).toNat := by
    simp only [BitVec.toInt_eq_toNat_cond] at *
    bv_omega
  have fits : who.heapTop ≤ who.heapBreak + size := by bv_omega
  rw [SbrkValid, sysSbrk_of_neg who mm (by omega), if_pos fits]
  rintro (⟨-, laid', -⟩ | ⟨null, -⟩)
  · have inOrder : (who.heapBreak + size).toNat ≤ who.heapBottom.toNat := BitVec.le_def.mp laid'.bottom
    omega
  · have zero : (who.heapBreak + size).toNat = 0 := congrArg BitVec.toNat null
    omega

/-! ### Growing -/

theorem grown_inside (positive : 0 < size.toInt)
    (small : size.toInt ≤ (who.heapBottom.toNat : Int) - who.heapBreak.toNat) :
    SbrkValid who mm size := by
  have moved := laid.moved_toNat (show 0 ≤ (who.heapBreak.toNat : Int) + size.toInt by omega)
  have lower := BitVec.le_def.mp laid.top
  rw [SbrkValid, sysSbrk_of_le who mm positive (by rw [laid.residual]; exact small)]
  exact .inl ⟨rfl, laid.withBreak (BitVec.le_def.mpr (by omega)) (BitVec.le_def.mpr (by omega)), moved⟩

theorem request (size : Word) (positive : 0 < size.toInt)
    (large : (who.heapBottom.toNat : Int) - who.heapBreak.toNat < size.toInt) :
    (size - (who.heapBottom - who.heapBreak)).toInt =
      size.toInt - ((who.heapBottom.toNat : Int) - who.heapBreak.toNat) := by
  have inside : _ < 131072 := laid.inMemory
  have ordered := laid.bottom
  simp only [BitVec.toInt_eq_toNat_cond] at *
  bv_omega

theorem nextPage :
    (who.heapBottom + 1#32).toNat = who.heapBottom.toNat + 1 ∧
      paddrToPaged (who.heapBottom + 1#32) = who.heapBottom.toNat / pageLen + 1 := by
  have inside : _ < 131072 := laid.inMemory
  have aligned := laid.aligned
  have value : (who.heapBottom + 1#32).toNat = who.heapBottom.toNat + 1 := by
    bv_omega
  refine ⟨value, ?_⟩
  unfold paddrToPaged pageLen at *
  omega

/-- **The pages after the heap** are added to the image. -/
theorem withPages {brk request : Word} (positive : 0 < request.toInt)
    (small : request.toInt ≤ 2 ^ 31 - 1024)
    (granted : pagesGranted mm (who.heapBottom + 1#32) request = true) (top : who.heapTop ≤ brk)
    (new : brk.toNat = who.heapBottom.toNat + request.toNat) :
    Laid { who with
        ptable := markRun who.ptable (paddrToPaged (who.heapBottom + 1#32)) (paddrToNumPages request)
        heapBreak := brk
        heapBottom := who.heapBottom + alignPage request }
      { mm with
        memMap := markRun mm.memMap (paddrToPaged (who.heapBottom + 1#32))
          (paddrToNumPages request) } := by
  have inside := laid.inMemory
  have aligned := laid.aligned
  have started := BitVec.le_def.mp laid.started
  have value := BitVec.toInt_eq_toNat_cond request
  have bound := request.isLt
  have rounded := alignPage_toNat positive
  have number := paddrToNumPages_eq positive small
  obtain ⟨-, page⟩ := laid.nextPage
  have fits :=
    pagesGranted_fits (by rw [numPages_of_small positive small]; exact Int.natCast_nonneg _) granted
  rw [page, number] at fits ⊢
  unfold pagesNr pageLen at *
  have natRequest : request.toInt = request.toNat := by
    split_ifs at value <;> omega
  have newBottom : (who.heapBottom + alignPage request).toNat =
      who.heapBottom.toNat + (request.toNat + 1023) / 1024 * 1024 := by
    rw [BitVec.toNat_add, rounded]
    omega
  refine ⟨BitVec.le_def.mpr ?_, top, BitVec.le_def.mpr ?_, ?_, fun i low high => ?_⟩
  · show who.memStart.toNat ≤ (who.heapBottom + alignPage request).toNat
    omega
  · show brk.toNat ≤ (who.heapBottom + alignPage request).toNat
    omega
  · show ((who.heapBottom + alignPage request).toNat + 1) % 1024 = 0
    omega
  · change who.memStart.toNat / 1024 ≤ i at low
    change i ≤ (who.heapBottom + alignPage request).toNat / 1024 at high
    rw [newBottom] at high
    rw [bitOn_markRun, bitOn_markRun]
    by_cases old : i ≤ who.heapBottom.toNat / 1024
    · obtain ⟨within, table, map⟩ := laid.pages i low old
      rw [table, map, Bool.or_true]
      exact ⟨within, rfl, rfl⟩
    · have added : who.heapBottom.toNat / 1024 + 1 ≤ i ∧
          i < who.heapBottom.toNat / 1024 + 1 + (request.toNat + 1023) / 1024 := by omega
      rw [decide_eq_true added, Bool.true_or, Bool.true_or]
      exact ⟨show i < 128 by omega, rfl, rfl⟩

theorem grown_beyond (positive : 0 < size.toInt)
    (large : (who.heapBottom.toNat : Int) - who.heapBreak.toNat < size.toInt)
    (small : size.toInt - ((who.heapBottom.toNat : Int) - who.heapBreak.toNat) ≤ 2 ^ 31 - 1024) :
    SbrkValid who mm size := by
  have lower := BitVec.le_def.mp laid.top
  have ordered := BitVec.le_def.mp laid.bottom
  have moved := laid.moved_toNat (show 0 ≤ (who.heapBreak.toNat : Int) + size.toInt by omega)
  have request := laid.request size positive large
  rw [SbrkValid, sysSbrk_of_gt who mm positive (by rw [laid.residual]; exact large),
    userGetFreePagesFrom_spec]
  cases granted : pagesGranted mm (who.heapBottom + 1#32) (size - (who.heapBottom - who.heapBreak)) with
  | false =>
    rw [if_neg Bool.false_ne_true]
    exact .inr ⟨rfl, rfl⟩
  | true =>
    simp only [if_true]
    have grown : (who.heapBreak + size).toNat =
        who.heapBottom.toNat + (size - (who.heapBottom - who.heapBreak)).toNat := by
      have inside : _ < 131072 := laid.inMemory
      simp only [BitVec.toInt_eq_toNat_cond] at *
      bv_omega
    exact .inl ⟨rfl, laid.withPages (by omega) (by omega) granted (BitVec.le_def.mpr (by omega)) grown,
      moved⟩

/-- A request that is rounded to a negative number of pages is granted, and the heap ends in pages that
are not the process's. -/
theorem grown_overflow
    (large : 2 ^ 31 - 1024 < size.toInt - ((who.heapBottom.toNat : Int) - who.heapBreak.toNat)) :
    ¬ SbrkValid who mm size := by
  have inside := laid.inMemory
  have ordered := BitVec.le_def.mp laid.bottom
  unfold pagesNr pageLen at inside
  have request := laid.request size (by omega) (by omega)
  have moved := laid.moved_toNat (show 0 ≤ (who.heapBreak.toNat : Int) + size.toInt by omega)
  have next := laid.nextPage.1
  rw [SbrkValid, sysSbrk_of_gt who mm (by omega) (by rw [laid.residual]; omega),
    userGetFreePagesFrom_spec, pagesGranted_large (by omega) (by omega)]
  simp only [if_true]
  rintro (⟨-, laid', -⟩ | ⟨null, -⟩)
  · have within := laid'.inMemory
    have inOrder := BitVec.le_def.mp laid'.bottom
    unfold pagesNr pageLen at within
    change (who.heapBreak + size).toNat ≤ _ at inOrder
    omega
  · have zero : (who.heapBreak + size).toNat = 0 := congrArg BitVec.toNat null
    omega

theorem unmoved : SbrkValid who mm 0#32 :=
  .inl ⟨rfl, laid, by rw [BitVec.toInt_zero, Int.add_zero]; rfl⟩

end Laid

/-- **For which sizes `sys_sbrk` keeps the layout** or changes nothing: all but the negative ones
that reach below address zero and the positive ones that ask for almost `2 ^ 31` words beyond the
heap. -/
theorem sbrk_valid_iff {who : Image} {mm : Mm} (laid : Laid who mm) (size : Word) :
    SbrkValid who mm size ↔ SizeInRange who size := by
  constructor
  · intro valid
    refine ⟨?_, ?_⟩
    · by_contra below
      exact laid.shrunk_wrapped (by omega) valid
    · by_contra large
      exact laid.grown_overflow (by omega) valid
  · rintro ⟨above, small⟩
    by_cases zero : size = 0#32
    · rw [zero]
      exact laid.unmoved
    have nonzero : size.toInt ≠ 0 := fun sum => zero (BitVec.eq_of_toInt_eq sum)
    by_cases negative : size.toInt < 0
    · exact laid.shrunk negative above
    by_cases inside : size.toInt ≤ (who.heapBottom.toNat : Int) - who.heapBreak.toNat
    · exact laid.grown_inside (by omega) inside
    · exact laid.grown_beyond (by omega) (by omega) small

/-- A process of three pages, its stack, its program and its heap, which starts at this address. -/
def threePages (rbase : Word) : Image :=
  ⟨rbase, 20480#32, 20480#32, 22528#32, 22528#32, 23551#32, 20480#32 - rbase,
    markRun (fun _ => 0#32) 20 3⟩

/-- The kernel, the process and another page behind it. -/
def threePagesMap : Mm := ⟨markRun (fun _ => 0#32) 0 24, 20⟩

theorem threePages_laid (rbase : Word) : Laid (threePages rbase) threePagesMap where
  started := show 20480#32 ≤ 23551#32 by decide
  top := show 22528#32 ≤ 22528#32 by decide
  bottom := show 22528#32 ≤ 23551#32 by decide
  aligned := show (23551 + 1) % 1024 = 0 by decide
  pages page low high := by
    change 20480 / 1024 ≤ page at low
    change page ≤ 23551 / 1024 at high
    refine ⟨show page < 128 by omega, ?_, ?_⟩
    · rw [threePages, bitOn_markRun, decide_eq_true (by omega), Bool.true_or]
    · rw [threePagesMap, bitOn_markRun, decide_eq_true (by omega), Bool.true_or]

/-- The rest of the heap is taken. -/
theorem threePages_valid : Laid (threePages 20480#32) threePagesMap ∧
    SbrkValid (threePages 20480#32) threePagesMap 1023#32 :=
  ⟨threePages_laid _, (sbrk_valid_iff (threePages_laid _) 1023#32).mpr (by decide)⟩

/-- The smallest size moves the break out of the memory. -/
theorem sbrk_wraps : Laid (threePages 20480#32) threePagesMap ∧
    (sysSbrk (threePages 20480#32) threePagesMap 0x80000000#32).2 = 0x80005800#32 ∧
    ¬ SbrkValid (threePages 20480#32) threePagesMap 0x80000000#32 :=
  ⟨threePages_laid _, by decide, (threePages_laid _).shrunk_wrapped (by decide)⟩

/-! ### The two calls -/

/-- The pointers to the heap are addresses, and the break and the end of the heap are not negative. -/
structure HeapPlaced (who : Image) : Prop where
  top : who.heapTop ≠ 0#32
  start : who.heapBreak ≠ 0#32
  brk : who.heapBreak.toNat < 2 ^ 31
  bottom : who.heapBottom.toNat + 1 < 2 ^ 31

/-- The break would go below `heap_top`, or the pages after the heap are not granted. -/
def SbrkRefused (who : Image) (mm : Mm) (size : Word) : Prop :=
  (size.toInt < 0 ∧ who.heapBreak + size < who.heapTop) ∨
  (0 < size.toInt ∧ (who.heapBottom - who.heapBreak).toInt < size.toInt ∧
    pagesGranted mm (who.heapBottom + 1#32) (size - (who.heapBottom - who.heapBreak)) = false)

instance (who : Image) (mm : Mm) (size : Word) : Decidable (SbrkRefused who mm size) :=
  inferInstanceAs (Decidable (_ ∨ _))

section Refused

variable {who : Image} {mm : Mm} {size vaddr : Word}

theorem sysSbrk_refused (refused : SbrkRefused who mm size) :
    sysSbrk who mm size = ((who, mm), 0#32) := by
  obtain ⟨negative, below⟩ | ⟨positive, beyond, denied⟩ := refused
  · rw [sysSbrk_of_neg who mm negative, if_neg (BitVec.not_le.mpr below)]
  · rw [sysSbrk_of_gt who mm positive beyond, userGetFreePagesFrom_spec, denied]
    simp

theorem sysSbrk_moves (granted : ¬ SbrkRefused who mm size) :
    (sysSbrk who mm size).2 = who.heapBreak + size ∧
      (sysSbrk who mm size).1.1.heapBreak = who.heapBreak + size ∧
      (sysSbrk who mm size).1.1.rbase = who.rbase := by
  rw [SbrkRefused, not_or] at granted
  obtain ⟨above, pages⟩ := granted
  by_cases zero : size.toInt = 0
  · rw [show size = 0#32 from BitVec.eq_of_toInt_eq zero, BitVec.add_zero]
    exact ⟨rfl, rfl, rfl⟩
  by_cases negative : size.toInt < 0
  · rw [sysSbrk_of_neg who mm negative, if_pos (BitVec.not_lt.mp fun below => above ⟨negative, below⟩)]
    exact ⟨rfl, rfl, rfl⟩
  by_cases inside : size.toInt ≤ (who.heapBottom - who.heapBreak).toInt
  · rw [sysSbrk_of_le who mm (by omega) inside]
    exact ⟨rfl, rfl, rfl⟩
  · have some' :
        pagesGranted mm (who.heapBottom + 1#32) (size - (who.heapBottom - who.heapBreak)) = true :=
      (Bool.not_eq_false _).mp fun denied => pages ⟨by omega, by omega, denied⟩
    rw [sysSbrk_of_gt who mm (by omega) (by omega), userGetFreePagesFrom_spec, some']
    simp

/-- In a heap that is placed, `NULL` is returned for what is refused and for nothing else. -/
theorem HeapPlaced.sysSbrk_null_iff (placed : HeapPlaced who) :
    (sysSbrk who mm size).2 = 0#32 ↔ SbrkRefused who mm size := by
  refine ⟨fun null => ?_, fun refused => by rw [sysSbrk_refused refused]⟩
  by_contra granted
  rw [(sysSbrk_moves granted).1] at null
  have low := placed.brk
  by_cases negative : size.toInt < 0
  · refine granted (.inl ⟨negative, BitVec.lt_def.mpr ?_⟩)
    rw [null]
    exact Nat.pos_of_ne_zero fun same => placed.top (BitVec.eq_of_toNat_eq same)
  · refine placed.start ?_
    simp only [BitVec.toInt_eq_toNat_cond] at *
    bv_omega

end Refused

/-- The two calls succeed or fail together, lead to the same heap and report the same break. A call
has failed if its reply is negative, for `sbrk` as for every other call. -/
def BrksAgree (who : Image) (mm : Mm) (vaddr : Word) : Prop :=
  let brk := doBrk who mm vaddr
  let sbrk := doSbrk who mm (vaddr - who.virtual who.heapBreak)
  (brk.2.1 < 0 ↔ sbrk.2.toInt < 0) ∧
  brk.1.1.heapBreak = sbrk.1.1.heapBreak ∧ brk.1.1.heapBottom = sbrk.1.1.heapBottom ∧
  (¬ brk.2.1 < 0 → brk.2.2 = sbrk.2)

namespace Image

/-- The distance from the break is the same for virtual and for physical addresses. -/
theorem increment_eq (who : Image) (vaddr : Word) :
    vaddr - who.virtual who.heapBreak = who.physical vaddr - who.heapBreak := by
  unfold Image.virtual Image.physical
  grind

theorem virtual_null_neg_iff (who : Image) :
    (who.virtual 0#32).toInt < 0 ↔ 0 < who.rbase.toNat ∧ who.rbase.toNat ≤ 2 ^ 31 := by
  simp only [Image.virtual, BitVec.toInt_eq_toNat_cond]
  bv_omega

end Image

namespace HeapPlaced

variable {who : Image} {mm : Mm} {vaddr : Word}

theorem below (placed : HeapPlaced who) {addr : Word} (below : addr < who.heapBreak) :
    (addr - who.heapBreak).toInt < 0 := by
  have low := placed.brk
  simp only [BitVec.toInt_eq_toNat_cond]
  bv_omega

/-- `do_brk` fails for what `sys_sbrk` refuses, and changes nothing. -/
theorem doBrk_refused (placed : HeapPlaced who)
    (refused : SbrkRefused who mm (who.physical vaddr - who.heapBreak)) :
    (doBrk who mm vaddr).1 = (who, mm) ∧ (doBrk who mm vaddr).2.1 < 0 := by
  by_cases below : who.physical vaddr < who.heapBreak
  · have negative := placed.below below
    obtain ⟨-, under⟩ | ⟨positive, -⟩ := refused
    · rw [BitVec.add_comm, BitVec.sub_add_cancel] at under
      rw [doBrk, if_pos below, if_pos under]
      exact ⟨rfl, show einval < 0 by decide⟩
    · omega
  · rw [doBrk, if_neg below, sysSbrk_refused refused]
    exact ⟨rfl, show enomem < 0 by decide⟩

/-- `do_brk` moves the break wherever `sys_sbrk` does. -/
theorem doBrk_moves (placed : HeapPlaced who)
    (granted : ¬ SbrkRefused who mm (who.physical vaddr - who.heapBreak)) :
    (doBrk who mm vaddr).1 = (sysSbrk who mm (who.physical vaddr - who.heapBreak)).1 ∧
      (doBrk who mm vaddr).2 = (0, vaddr) := by
  obtain ⟨ret, -, base⟩ := sysSbrk_moves granted
  have nonnull := mt placed.sysSbrk_null_iff.mp granted
  have target : who.heapBreak + (who.physical vaddr - who.heapBreak) = who.physical vaddr := by
    rw [BitVec.add_comm, BitVec.sub_add_cancel]
  by_cases below : who.physical vaddr < who.heapBreak
  · have negative := placed.below below
    have above : who.heapTop ≤ who.physical vaddr :=
      BitVec.not_lt.mp fun under => granted (.inl ⟨negative, by rw [target]; exact under⟩)
    rw [doBrk, if_pos below, if_neg (BitVec.not_lt.mpr above), sysSbrk_of_neg who mm negative, target,
      if_pos above]
    exact ⟨rfl, rfl⟩
  · rw [doBrk, if_neg below]
    simp only [if_neg nonnull]
    refine ⟨trivial, congrArg (Prod.mk 0) ?_⟩
    rw [Image.virtual, ret, base, target, Image.physical, BitVec.add_sub_cancel]

end HeapPlaced

/-- What `do_sbrk` replies to a size that is not refused is the address that `do_brk` is asked for. -/
theorem doSbrk_moves {who : Image} {mm : Mm} {vaddr : Word}
    (granted : ¬ SbrkRefused who mm (who.physical vaddr - who.heapBreak)) :
    (doSbrk who mm (who.physical vaddr - who.heapBreak)).2 = vaddr := by
  obtain ⟨ret, -, base⟩ := sysSbrk_moves granted
  rw [doSbrk_reply, Image.virtual, ret, base, BitVec.add_comm, BitVec.sub_add_cancel, Image.physical,
    BitVec.add_sub_cancel]

/-- **`brk` and `sbrk` agree** if and only if the reply of `do_sbrk` has the right sign: a failing
`do_sbrk` replies `NULL` less `rbase`, and one that moves the break replies the new break itself. -/
theorem brk_sbrk_agree_iff {who : Image} (mm : Mm) (placed : HeapPlaced who) (vaddr : Word) :
    BrksAgree who mm vaddr ↔
      if SbrkRefused who mm (vaddr - who.virtual who.heapBreak) then
        0 < who.rbase.toNat ∧ who.rbase.toNat ≤ 2 ^ 31
      else vaddr.toNat < 2 ^ 31 := by
  unfold BrksAgree
  simp only [Image.increment_eq]
  split_ifs with refused
  · obtain ⟨kept, failed⟩ := placed.doBrk_refused refused
    rw [doSbrk, sysSbrk_refused refused, kept, ← who.virtual_null_neg_iff]
    exact ⟨fun agree => agree.1.mp failed,
      fun seen => ⟨iff_of_true failed seen, rfl, rfl, fun done => absurd failed done⟩⟩
  · obtain ⟨same, report⟩ := placed.doBrk_moves refused
    have sign : ¬ vaddr.toInt < 0 ↔ vaddr.toNat < 2 ^ 31 := by
      rw [BitVec.toInt_eq_toNat_cond]
      omega
    rw [report, doSbrk_moves refused, same, ← sign]
    exact ⟨fun agree negative => absurd (agree.1.mpr negative) (Int.lt_irrefl 0),
      fun seen => ⟨iff_of_false (Int.lt_irrefl 0) seen, rfl, rfl, fun _ => rfl⟩⟩

/-- The image starts above address zero, and the page behind the heap is taken. -/
theorem threePages_agree :
    SbrkRefused (threePages 20480#32) threePagesMap (3073#32 - 2048#32) ∧
      BrksAgree (threePages 20480#32) threePagesMap 3073#32 :=
  ⟨by decide,
    (brk_sbrk_agree_iff threePagesMap ⟨by decide, by decide, by decide, by decide⟩ 3073#32).mpr
    (by decide)⟩

/-- A process whose virtual addresses are the physical ones: the failing `do_sbrk` replies zero. -/
theorem sbrk_failure_unseen :
    (doBrk (threePages 0#32) threePagesMap 23553#32).2.1 = enomem ∧
    (doSbrk (threePages 0#32) threePagesMap (23553#32 - 22528#32)).2 = 0#32 ∧
    ¬ BrksAgree (threePages 0#32) threePagesMap 23553#32 := by
  have failed : (doBrk (threePages 0#32) threePagesMap 23553#32).2.1 = enomem := by decide
  have reply : (doSbrk (threePages 0#32) threePagesMap (23553#32 - 22528#32)).2 = 0#32 := by decide
  refine ⟨failed, reply, fun agree => ?_⟩
  have seen := agree.1.mp (by rw [failed]; decide)
  exact absurd seen (by decide)

end Winix.Kernel
